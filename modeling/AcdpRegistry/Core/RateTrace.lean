/-
  The in-memory limiter over whole traces (`acdp-registry-core/src/rate_limit.rs`):
  `peek`, `record`, `check` and `check_global`, in the order their locks are taken.

  The limiter prunes inside `record` and `check`, at a threshold that moves, and buckets
  roll lazily.  Beside it stands one that never prunes: `Unpruned` relates the two, an
  absent bucket to one whose window is over, and every call keeps it.  The bounds on what
  is admitted are then proved of the limiter whose buckets never go away.
-/
import AcdpRegistry.Core.RateLimit
import AcdpRegistry.Lib.History

namespace AcdpRegistry

open Lib

/-! ## The calls -/

namespace AgentRateLimiter

variable (l : AgentRateLimiter) (agentId : String) (now : ℤ)

/-- The bucket that `entry(..).or_insert(..)` gives, in its window at `now`. -/
def current : Bucket := ((l.bucket? agentId).getD ⟨now, 0⟩).rolled now

def put (f : Bucket → Bucket) : AgentRateLimiter :=
  { l with
    buckets := upsert agentId ⟨now, 0⟩ (fun b => f (b.rolled now)) l.buckets
    keys := keys_upsert agentId l.keys }

/-- `check_at`, after its prune.  A denied check leaves the bucket rolled. -/
def checkPruned : Except ℕ Unit × AgentRateLimiter :=
  let b := l.current agentId now
  if l.limit ≤ b.count then
    (.error (retryAfterSecs (elapsedSince b.windowStart now)), l.put agentId now id)
  else (.ok (), l.put agentId now fun b => { b with count := b.count + 1 })

def checkAt : Except ℕ Unit × AgentRateLimiter := (l.pruneIfDue now).checkPruned agentId now

theorem recordAt_eq : l.recordAt agentId now = (l.pruneIfDue now).put agentId now Bucket.charged := rfl

end AgentRateLimiter

/-- The limiter with its process-global ceiling; `u32::MAX` turns the ceiling off. -/
structure CeilingLimiter extends AgentRateLimiter where
  globalLimit : ℕ
  global : AgentRateLimiter.Bucket

inductive LimiterOp
  | peek (agentId : String)
  | record (agentId : String)
  | check (agentId : String)
  | checkGlobal
  deriving DecidableEq, Repr

namespace CeilingLimiter

open AgentRateLimiter (Bucket)

def withGlobalCeiling (limit globalLimit : UInt32) (now : ℤ) : CeilingLimiter where
  limit := limit.toNat
  buckets := []
  keys := List.nodup_nil
  globalLimit := globalLimit.toNat
  global := ⟨now, 0⟩

variable (s : CeilingLimiter) (now : ℤ)

def checkGlobalAt : Except ℕ Unit × CeilingLimiter :=
  if s.globalLimit = 2 ^ 32 - 1 then (.ok (), s)
  else
    let b := s.global.rolled now
    if s.globalLimit ≤ b.count then
      (.error (retryAfterSecs (elapsedSince b.windowStart now)), { s with global := b })
    else (.ok (), { s with global := { b with count := b.count + 1 } })

/-- The map as a call finds it: pruned, or in a limiter that never prunes as it is. -/
def pruned (prunes : Bool) : AgentRateLimiter :=
  if prunes then s.toAgentRateLimiter.pruneIfDue now else s.toAgentRateLimiter

/-- One call.  `record` has no answer of its own. -/
def step (prunes : Bool) : LimiterOp → Except ℕ Unit × CeilingLimiter
  | .peek k => (s.peekAt k now, s)
  | .record k => (.ok (), { s with toAgentRateLimiter := (s.pruned now prunes).put k now Bucket.charged })
  | .check k =>
    (((s.pruned now prunes).checkPruned k now).1,
      { s with toAgentRateLimiter := ((s.pruned now prunes).checkPruned k now).2 })
  | .checkGlobal => s.checkGlobalAt now

end CeilingLimiter

/-- A call's answer, and the window that its bucket is in afterwards. -/
structure LimiterOutcome where
  op : LimiterOp
  answer : Except ℕ Unit
  window : Option ℤ

namespace LimiterOutcome

def admits (k : String) (w : ℤ) : LimiterOutcome → Bool
  | ⟨.check k', .ok (), window⟩ => k' = k && window = some w
  | _ => false

def admitsGlobal (w : ℤ) : LimiterOutcome → Bool
  | ⟨.checkGlobal, .ok (), window⟩ => window = some w
  | _ => false

end LimiterOutcome

namespace CeilingLimiter

open AgentRateLimiter (Bucket)

/-- The window that a call was counted in; `peek` counts in none. -/
def windowAfter (s : CeilingLimiter) : LimiterOp → Option ℤ
  | .peek _ => none
  | .record k => (s.bucket? k).map Bucket.windowStart
  | .check k => (s.bucket? k).map Bucket.windowStart
  | .checkGlobal => some s.global.windowStart

def outcome (prunes : Bool) (s : CeilingLimiter) (call : LimiterOp × ℤ) : LimiterOutcome :=
  ⟨call.1, (s.step call.2 prunes call.1).1, (s.step call.2 prunes call.1).2.windowAfter call.1⟩

/-- One call, at its clock reading: the limiter afterwards, and the outcome. -/
def next (prunes : Bool) (s : CeilingLimiter) (call : LimiterOp × ℤ) : CeilingLimiter × LimiterOutcome :=
  ((s.step call.2 prunes call.1).2, s.outcome prunes call)

/-- A trace of calls: the limiter at the end, and the outcomes. -/
def run (prunes : Bool) (s : CeilingLimiter) (trace : List (LimiterOp × ℤ)) :
    CeilingLimiter × List LimiterOutcome :=
  History.run (next prunes) s trace

end CeilingLimiter

/-! ## Buckets -/

variable {trace : List (LimiterOp × ℤ)}

namespace AgentRateLimiter

variable {l : AgentRateLimiter} {agentId a : String} {now t : ℤ} {b : Bucket} {f : Bucket → Bucket}

theorem Bucket.expired_iff : b.expired now = true ↔ b.windowStart + rateWindow ≤ now := by
  have hpos : 0 < rateWindow := by decide
  show decide (rateWindow ≤ (now - b.windowStart).toNat) = true ↔ _
  rw [decide_eq_true_iff]
  omega

theorem Bucket.expired_mono (hle : t ≤ now) (h : b.expired t = true) : b.expired now = true :=
  Bucket.expired_iff.2 ((Bucket.expired_iff.1 h).trans hle)

theorem Bucket.rolled_of_expired (h : b.expired now = true) : b.rolled now = ⟨now, 0⟩ := if_pos h

theorem Bucket.rolled_of_live (h : b.expired now = false) : b.rolled now = b := if_neg (by simp [h])

theorem Bucket.rolled_new : (⟨now, 0⟩ : Bucket).rolled now = ⟨now, 0⟩ := ite_self _ |>.trans rfl

theorem bucket?_put : (l.put agentId now f).bucket? a =
    if a = agentId then some (f (l.current agentId now)) else l.bucket? a := by
  rw [bucket?, put, bucketOf_upsert]
  rfl

theorem bucket?_put_self : (l.put agentId now f).bucket? agentId = some (f (l.current agentId now)) := by
  rw [bucket?_put, if_pos rfl]

theorem bucket?_put_of_ne (ha : a ≠ agentId) : (l.put agentId now f).bucket? a = l.bucket? a := by
  rw [bucket?_put, if_neg ha]

theorem current_of_none (h : l.bucket? agentId = none) : l.current agentId now = ⟨now, 0⟩ := by
  rw [current, h, Option.getD_none, Bucket.rolled_new]

theorem current_of_some (h : l.bucket? agentId = some b) : l.current agentId now = b.rolled now := by
  rw [current, h, Option.getD_some]

theorem limit_pruneIfDue : (l.pruneIfDue now).limit = l.limit := by
  unfold pruneIfDue
  split <;> rfl

/-! ## Against a limiter that never prunes -/

/-- Each bucket of a limiter that never prunes is the same, or it is gone and its window is over at
    `t`. -/
def Unpruned (t : ℤ) (p u : AgentRateLimiter) : Prop :=
  p.limit = u.limit ∧ ∀ k, p.bucket? k = u.bucket? k ∨
    (p.bucket? k = none ∧ ∃ b, u.bucket? k = some b ∧ b.expired t = true)

namespace Unpruned

variable {p u : AgentRateLimiter}

theorem mono (h : Unpruned t p u) (hle : t ≤ now) : Unpruned now p u := by
  refine ⟨h.1, fun k => ?_⟩
  rcases h.2 k with hk | ⟨hp, b, hb, hover⟩
  · exact .inl hk
  · exact .inr ⟨hp, b, hb, Bucket.expired_mono hle hover⟩

variable (h : Unpruned now p u)

include h

theorem prune : Unpruned now (p.pruneIfDue now) u := by
  refine ⟨limit_pruneIfDue.trans h.1, fun k => ?_⟩
  rcases bucket?_pruneIfDue p now k with hk | hk
  · rw [hk]
    exact h.2 k
  · rw [hk]
    rcases h.2 k with hsame | ⟨hp, hover⟩
    · rw [hsame]
      cases u.bucket? k with
      | none => exact .inl rfl
      | some b =>
        cases hb : b.expired now with
        | true => exact .inr ⟨by simp [Option.filter, hb], b, rfl, hb⟩
        | false => exact .inl (by simp [Option.filter, hb])
    · rw [hp]
      exact .inr ⟨rfl, hover⟩

theorem current (k : String) : p.current k now = u.current k now := by
  rcases h.2 k with hk | ⟨hp, b, hb, hover⟩
  · rw [AgentRateLimiter.current, hk]
    rfl
  · rw [current_of_none hp, current_of_some hb, Bucket.rolled_of_expired hover]

theorem put (k : String) (f : Bucket → Bucket) :
    Unpruned now (p.put k now f) (u.put k now f) := by
  refine ⟨h.1, fun a => ?_⟩
  rw [bucket?_put, bucket?_put, h.current k]
  split
  · exact .inl rfl
  · exact h.2 a

theorem peekAt (k : String) : p.peekAt k now = u.peekAt k now := by
  rcases h.2 k with hk | ⟨hp, b, hb, hover⟩
  · rw [AgentRateLimiter.peekAt, AgentRateLimiter.peekAt, hk, h.1]
  · simp [AgentRateLimiter.peekAt, hp, hb, hover]

theorem checkPruned (k : String) :
    (p.checkPruned k now).1 = (u.checkPruned k now).1 ∧
      Unpruned now (p.checkPruned k now).2 (u.checkPruned k now).2 := by
  unfold AgentRateLimiter.checkPruned
  rw [h.current k, h.1]
  dsimp only
  split
  · exact ⟨rfl, h.put k _⟩
  · exact ⟨rfl, h.put k _⟩

end Unpruned

end AgentRateLimiter

namespace CeilingLimiter

open AgentRateLimiter (Bucket Unpruned)

/-- The same of the whole limiter. -/
structure Mirrors (t : ℤ) (p u : CeilingLimiter) : Prop where
  map : Unpruned t p.toAgentRateLimiter u.toAgentRateLimiter
  globalLimit : p.globalLimit = u.globalLimit
  global : p.global = u.global

variable {s p u : CeilingLimiter} {t now : ℤ}

theorem windowAfter_record (prunes : Bool) (k : String) :
    (s.step now prunes (.record k)).2.windowAfter (.record k) =
      some ((s.pruned now prunes).current k now).windowStart := by
  show Option.map _ (((s.pruned now prunes).put k now Bucket.charged).bucket? k) = _
  rw [AgentRateLimiter.bucket?_put_self]
  rfl

theorem windowAfter_check (prunes : Bool) (k : String) :
    (s.step now prunes (.check k)).2.windowAfter (.check k) =
      some ((s.pruned now prunes).current k now).windowStart := by
  show Option.map _ (((s.pruned now prunes).checkPruned k now).2.bucket? k) = _
  unfold AgentRateLimiter.checkPruned
  dsimp only
  split
  · rw [AgentRateLimiter.bucket?_put_self]
    rfl
  · rw [AgentRateLimiter.bucket?_put_self]
    rfl

theorem Mirrors.step (h : Mirrors t p u) (hle : t ≤ now) (op : LimiterOp) :
    p.outcome true (op, now) = u.outcome false (op, now) ∧
      Mirrors now (p.step now true op).2 (u.step now false op).2 := by
  have hnow : Unpruned now p.toAgentRateLimiter u.toAgentRateLimiter := h.map.mono hle
  have hpruned : Unpruned now (p.pruned now true) (u.pruned now false) := hnow.prune
  cases op with
  | peek k => exact ⟨congrArg (LimiterOutcome.mk _ · _) (hnow.peekAt k), hnow, h.globalLimit, h.global⟩
  | record k =>
    refine ⟨?_, hpruned.put k Bucket.charged, h.globalLimit, h.global⟩
    rw [outcome, outcome, windowAfter_record, windowAfter_record, hpruned.current k]
    rfl
  | check k =>
    obtain ⟨hanswer, hmap⟩ := hpruned.checkPruned k
    refine ⟨?_, hmap, h.globalLimit, h.global⟩
    rw [outcome, outcome, windowAfter_check, windowAfter_check, hpruned.current k]
    exact congrArg (LimiterOutcome.mk _ · _) hanswer
  | checkGlobal =>
    have hstep : (p.checkGlobalAt now).1 = (u.checkGlobalAt now).1 ∧
        (p.checkGlobalAt now).2.global = (u.checkGlobalAt now).2.global ∧
        Mirrors now (p.checkGlobalAt now).2 (u.checkGlobalAt now).2 := by
      unfold checkGlobalAt
      rw [h.globalLimit, h.global]
      split
      · exact ⟨rfl, h.global, hnow, h.globalLimit, h.global⟩
      · dsimp only
        split
        · exact ⟨rfl, rfl, hnow, rfl, rfl⟩
        · exact ⟨rfl, rfl, hnow, rfl, rfl⟩
    obtain ⟨hanswer, hglobal, hmirror⟩ := hstep
    refine ⟨?_, hmirror⟩
    show LimiterOutcome.mk _ (p.checkGlobalAt now).1 (some (p.checkGlobalAt now).2.global.windowStart) = _
    rw [hanswer, hglobal]
    rfl

/-- The clock readings of a trace that begins at `start`. -/
def Clocked (start : ℤ) (trace : List (LimiterOp × ℤ)) : Prop :=
  (start :: trace.map Prod.snd).Pairwise (· ≤ ·)

def lastReading (start : ℤ) (trace : List (LimiterOp × ℤ)) : ℤ := (trace.map Prod.snd).getLastD start

theorem Clocked.snoc {start : ℤ} {call : LimiterOp × ℤ} (h : Clocked start (trace ++ [call])) :
    Clocked start trace ∧ lastReading start trace ≤ call.2 := by
  unfold Clocked at h ⊢
  rw [List.map_append, List.map_singleton, ← List.cons_append, List.pairwise_append] at h
  refine ⟨h.1, h.2.2 _ ?_ _ (List.mem_singleton_self _)⟩
  rw [lastReading, List.getLastD_eq_getLast?]
  cases hlast : (trace.map Prod.snd).getLast? with
  | none => exact List.mem_cons_self
  | some t => exact List.mem_cons_of_mem _ (List.mem_of_getLast? hlast)

theorem lastReading_snoc (start : ℤ) (trace : List (LimiterOp × ℤ)) (call : LimiterOp × ℤ) :
    lastReading start (trace ++ [call]) = call.2 := by
  simp [lastReading, List.getLastD_eq_getLast?]

/-- **A whole trace on both.** -/
theorem Mirrors.run {start : ℤ} (s : CeilingLimiter) (hclock : Clocked start trace) :
    (s.run true trace).2 = (s.run false trace).2 ∧
      Mirrors (lastReading start trace) (s.run true trace).1 (s.run false trace).1 := by
  induction trace using List.reverseRecOn with
  | nil => exact ⟨rfl, ⟨rfl, fun _ => .inl rfl⟩, rfl, rfl⟩
  | append_singleton trace call ih =>
    obtain ⟨hbefore, hle⟩ := hclock.snoc
    obtain ⟨houts, hmirror⟩ := ih hbefore
    obtain ⟨hout, hmirror'⟩ := hmirror.step hle call.1
    rw [CeilingLimiter.run, CeilingLimiter.run, History.run_snoc, History.run_snoc, lastReading_snoc]
    exact ⟨congrArg₂ (· ++ [·]) houts hout, hmirror'⟩

end CeilingLimiter

/-! ## What a window admits -/

namespace AgentRateLimiter

/-- A bucket counts what was admitted in its window; no later window has admitted anything, and none
    more than the limit. -/
structure Metered (limit : ℕ) (t : ℤ) (b : Option Bucket) (admitted : ℤ → ℕ) : Prop where
  bound : ∀ w, admitted w ≤ limit
  counted : ∀ x, b = some x → admitted x.windowStart ≤ x.count
  past : ∀ w, 0 < admitted w → ∃ x, b = some x ∧ w ≤ x.windowStart
  started : ∀ x, b = some x → x.windowStart ≤ t

namespace Metered

variable {limit : ℕ} {t now : ℤ} {b : Option Bucket} {x : Bucket} {admitted : ℤ → ℕ}

theorem mono (h : Metered limit t b admitted) (hle : t ≤ now) : Metered limit now b admitted :=
  { h with started := fun x hx => (h.started x hx).trans hle }

theorem begins (h : Metered limit t b admitted)
    (hover : ∀ x, b = some x → x.expired now = true) : Metered limit now (some ⟨now, 0⟩) admitted := by
  have hpast : ∀ w, 0 < admitted w → w < now := by
    intro w hw
    obtain ⟨x, hx, hle⟩ := h.past w hw
    have hx := Bucket.expired_iff.1 (hover x hx)
    have hpos : 0 < rateWindow := by decide
    omega
  refine ⟨h.bound, fun y hy => ?_, fun w hw => ⟨_, rfl, (hpast w hw).le⟩, fun y hy => ?_⟩
  · cases hy
    by_contra hpos
    exact lt_irrefl now (hpast now (not_le.1 hpos))
  · cases hy
    exact le_rfl

theorem rolled (h : Metered limit t b admitted) (hle : t ≤ now) :
    Metered limit now (some ((b.getD ⟨now, 0⟩).rolled now)) admitted := by
  cases b with
  | none =>
    rw [Option.getD_none, Bucket.rolled_new]
    exact h.begins nofun
  | some x =>
    rw [Option.getD_some]
    cases hx : x.expired now with
    | true =>
      rw [Bucket.rolled_of_expired hx]
      refine h.begins fun y hy => ?_
      cases hy
      exact hx
    | false =>
      rw [Bucket.rolled_of_live hx]
      exact h.mono hle

theorem counts (h : Metered limit t (some x) admitted) (hlt : x.count < limit) :
    Metered limit t (some { x with count := x.count + 1 })
      (fun w => admitted w + if w = x.windowStart then 1 else 0) := by
  have hcounted := h.counted x rfl
  refine ⟨fun w => ?_, fun y hy => ?_, fun w hw => ⟨_, rfl, ?_⟩, fun y hy => ?_⟩
  · have hbound := h.bound w
    split
    · next hw =>
      subst hw
      omega
    · omega
  · cases hy
    simpa using hcounted
  · dsimp only at hw ⊢
    by_cases hw' : w = x.windowStart
    · exact hw'.le
    · rw [if_neg hw', add_zero] at hw
      obtain ⟨y, hy, hle⟩ := h.past w hw
      cases hy
      exact hle
  · cases hy
    exact h.started x rfl

theorem charge (h : Metered limit t (some x) admitted) (hlimit : limit ≤ 2 ^ 32 - 1) :
    Metered limit t (some x.charged) admitted := by
  refine ⟨h.bound, fun y hy => ?_, fun w hw => ⟨_, rfl, ?_⟩, fun y hy => ?_⟩
  · cases hy
    have hcounted := h.counted x rfl
    have hbound := h.bound x.windowStart
    show admitted x.windowStart ≤ min (x.count + 1) (2 ^ 32 - 1)
    omega
  · obtain ⟨y, hy, hle⟩ := h.past w hw
    cases hy
    exact hle
  · cases hy
    exact h.started x rfl

/-! The admissions of a trace are counted over its outcomes. -/

variable {outs : List LimiterOutcome} {o : LimiterOutcome} {p : ℤ → LimiterOutcome → Bool}

theorem snoc_of_not (h : Metered limit t b fun w => outs.countP (p w)) (ho : ∀ w, p w o = false) :
    Metered limit t b fun w => (outs ++ [o]).countP (p w) := by
  have hcount : (fun w => (outs ++ [o]).countP (p w)) = fun w => outs.countP (p w) := by
    funext w
    simp [List.countP_append, ho w]
  rw [hcount]
  exact h

theorem snoc_counted (h : Metered limit t (some x) fun w => outs.countP (p w)) (hlt : x.count < limit)
    (ho : ∀ w, p w o = decide (some x.windowStart = some w)) :
    Metered limit t (some { x with count := x.count + 1 }) fun w => (outs ++ [o]).countP (p w) := by
  have hcount : (fun w => (outs ++ [o]).countP (p w)) =
      fun w => outs.countP (p w) + if w = x.windowStart then 1 else 0 := by
    funext w
    simp [List.countP_append, ho w, eq_comm]
  rw [hcount]
  exact h.counts hlt

end Metered

end AgentRateLimiter

namespace CeilingLimiter

open AgentRateLimiter (Bucket Metered)

/-- What holds of a limiter that never prunes, after these outcomes. -/
structure MeterInv (limit globalLimit : ℕ) (t : ℤ) (outs : List LimiterOutcome) (s : CeilingLimiter) :
    Prop where
  limit_eq : s.limit = limit
  globalLimit_eq : s.globalLimit = globalLimit
  keys : ∀ k, Metered limit t (s.bucket? k) fun w => outs.countP (·.admits k w)
  global : globalLimit ≠ 2 ^ 32 - 1 →
    Metered globalLimit t (some s.global) fun w => outs.countP (·.admitsGlobal w)

variable {limit globalLimit : ℕ} {t now : ℤ} {outs : List LimiterOutcome} {s : CeilingLimiter}

theorem MeterInv.record (h : MeterInv limit globalLimit t outs s) (hle : t ≤ now)
    (hlimit : limit ≤ 2 ^ 32 - 1) (k : String) :
    MeterInv limit globalLimit now (outs ++ [s.outcome false (.record k, now)])
      (s.step now false (.record k)).2 := by
  refine ⟨h.limit_eq, h.globalLimit_eq, fun a => ?_, fun hon => ?_⟩
  · refine Metered.snoc_of_not ?_ fun _ => rfl
    show Metered limit now ((s.put k now Bucket.charged).bucket? a) _
    by_cases ha : a = k
    · subst ha
      rw [AgentRateLimiter.bucket?_put_self]
      exact ((h.keys a).rolled hle).charge hlimit
    · rw [AgentRateLimiter.bucket?_put_of_ne ha]
      exact (h.keys a).mono hle
  · exact ((h.global hon).mono hle).snoc_of_not fun _ => rfl

theorem MeterInv.check (h : MeterInv limit globalLimit t outs s) (hle : t ≤ now) (k : String) :
    MeterInv limit globalLimit now (outs ++ [s.outcome false (.check k, now)])
      (s.step now false (.check k)).2 := by
  have hout : s.outcome false (.check k, now) = ⟨.check k, (s.checkPruned k now).1,
      some (s.current k now).windowStart⟩ := congrArg (LimiterOutcome.mk _ _) (windowAfter_check false k)
  have hcurrent : Metered limit now (some (s.current k now)) _ := (h.keys k).rolled hle
  refine ⟨?_, h.globalLimit_eq, fun a => ?_, fun hon => ?_⟩
  · show (s.checkPruned k now).2.limit = limit
    rw [AgentRateLimiter.checkPruned]
    split <;> exact h.limit_eq
  · rw [hout]
    show Metered limit now ((s.checkPruned k now).2.bucket? a) _
    unfold AgentRateLimiter.checkPruned
    dsimp only
    rw [h.limit_eq]
    by_cases hfull : limit ≤ (s.current k now).count
    · rw [if_pos hfull]
      refine Metered.snoc_of_not ?_ fun _ => rfl
      by_cases ha : a = k
      · subst ha
        rw [AgentRateLimiter.bucket?_put_self]
        exact hcurrent
      · rw [AgentRateLimiter.bucket?_put_of_ne ha]
        exact (h.keys a).mono hle
    · rw [if_neg hfull]
      by_cases ha : a = k
      · subst ha
        rw [AgentRateLimiter.bucket?_put_self]
        exact hcurrent.snoc_counted (not_le.1 hfull) fun w => by simp [LimiterOutcome.admits]
      · rw [AgentRateLimiter.bucket?_put_of_ne ha]
        exact ((h.keys a).mono hle).snoc_of_not fun w => by simp [LimiterOutcome.admits, Ne.symm ha]
  · rw [hout]
    refine ((h.global hon).mono hle).snoc_of_not fun _ => rfl

theorem checkGlobalAt_cases (s : CeilingLimiter) (now : ℤ) :
    (s.globalLimit = 2 ^ 32 - 1 ∧ s.checkGlobalAt now = (.ok (), s)) ∨
    (∃ retryAfter, s.checkGlobalAt now = (.error retryAfter, { s with global := s.global.rolled now })) ∨
    ((s.global.rolled now).count < s.globalLimit ∧ s.checkGlobalAt now = (.ok (),
      { s with global := { s.global.rolled now with count := (s.global.rolled now).count + 1 } })) := by
  unfold checkGlobalAt
  split
  · next hoff => exact .inl ⟨hoff, rfl⟩
  · dsimp only
    split
    · exact .inr (.inl ⟨_, rfl⟩)
    · next hlt => exact .inr (.inr ⟨not_le.1 hlt, rfl⟩)

theorem MeterInv.checkGlobal (h : MeterInv limit globalLimit t outs s) (hle : t ≤ now) :
    MeterInv limit globalLimit now (outs ++ [s.outcome false (.checkGlobal, now)])
      (s.step now false .checkGlobal).2 := by
  have hout : s.outcome false (.checkGlobal, now) = ⟨.checkGlobal, (s.checkGlobalAt now).1,
      some (s.checkGlobalAt now).2.global.windowStart⟩ := rfl
  rw [hout]
  show MeterInv _ _ _ _ (s.checkGlobalAt now).2
  have hkeys : ∀ (o : LimiterOutcome) (k : String), o.op = .checkGlobal →
      Metered limit now (s.bucket? k) fun w => (outs ++ [o]).countP (·.admits k w) := by
    intro o k ho
    refine ((h.keys k).mono hle).snoc_of_not fun w => ?_
    obtain ⟨op, answer, window⟩ := o
    cases ho
    rfl
  rcases s.checkGlobalAt_cases now with ⟨hoff, hstep⟩ | ⟨retryAfter, hstep⟩ | ⟨hlt, hstep⟩
  · rw [hstep]
    refine ⟨h.limit_eq, h.globalLimit_eq, fun k => hkeys _ k rfl, fun hon => ?_⟩
    exact absurd (h.globalLimit_eq.symm.trans hoff) hon
  · rw [hstep]
    refine ⟨h.limit_eq, h.globalLimit_eq, fun k => hkeys _ k rfl, fun hon => ?_⟩
    exact ((h.global hon).rolled hle).snoc_of_not fun _ => rfl
  · rw [hstep]
    refine ⟨h.limit_eq, h.globalLimit_eq, fun k => hkeys _ k rfl, fun hon => ?_⟩
    rw [h.globalLimit_eq] at hlt
    exact ((h.global hon).rolled hle).snoc_counted hlt fun _ => rfl

/-- **What a window admits**, over a whole trace of the limiter that never prunes. -/
theorem meterInv_run {start : ℤ} (limit globalLimit : UInt32) (hclock : Clocked start trace) :
    MeterInv limit.toNat globalLimit.toNat (lastReading start trace)
      ((withGlobalCeiling limit globalLimit start).run false trace).2
      ((withGlobalCeiling limit globalLimit start).run false trace).1 := by
  have hlimit : limit.toNat ≤ 2 ^ 32 - 1 := Nat.le_pred_of_lt limit.toNat_lt
  induction trace using List.reverseRecOn with
  | nil =>
    refine ⟨rfl, rfl, fun k => ?_, fun _ => ?_⟩
    · exact ⟨fun _ => Nat.zero_le _, nofun, fun _ hw => absurd hw (lt_irrefl 0), nofun⟩
    · refine ⟨fun _ => Nat.zero_le _, fun _ _ => Nat.zero_le _, fun _ hw => absurd hw (lt_irrefl 0), ?_⟩
      intro x hx
      cases hx
      exact le_rfl
  | append_singleton trace call ih =>
    obtain ⟨hbefore, hle⟩ := hclock.snoc
    have hinv := ih hbefore
    rw [run, History.run_snoc, lastReading_snoc]
    obtain ⟨op, now⟩ := call
    cases op with
    | peek k =>
      refine ⟨hinv.limit_eq, hinv.globalLimit_eq, fun a => ?_, fun hon => ?_⟩
      · exact ((hinv.keys a).mono hle).snoc_of_not fun _ => rfl
      · exact ((hinv.global hon).mono hle).snoc_of_not fun _ => rfl
    | record k => exact hinv.record hle hlimit k
    | check k => exact hinv.check hle k
    | checkGlobal => exact hinv.checkGlobal hle

end CeilingLimiter

/-! ## The limiter -/

namespace AgentRateLimiter

variable {l : AgentRateLimiter} {agentId : String} {now : ℤ}

theorem bucketOf_of_mem {buckets : List (String × Bucket)} (h : (buckets.map Prod.fst).Nodup)
    {e : String × Bucket} (he : e ∈ buckets) : bucketOf buckets e.1 = some e.2 := by
  induction buckets with
  | nil => cases he
  | cons e' buckets ih =>
    obtain ⟨hnew, htail⟩ := List.nodup_cons.1 h
    rcases List.mem_cons.1 he with rfl | he
    · simp [bucketOf]
    · have hne : e'.1 ≠ e.1 := fun heq => hnew (heq ▸ List.mem_map_of_mem he)
      rw [← ih htail he]
      simp [bucketOf, hne]

theorem put_congr {f g : Bucket → Bucket} (hfg : f (l.current agentId now) = g (l.current agentId now)) :
    l.put agentId now f = l.put agentId now g := by
  have hmap : upsert agentId ⟨now, 0⟩ (fun b => f (b.rolled now)) l.buckets =
      upsert agentId ⟨now, 0⟩ (fun b => g (b.rolled now)) l.buckets := by
    unfold upsert
    split
    · next hnone =>
      rw [current_of_none hnone] at hfg
      dsimp only
      rw [Bucket.rolled_new, hfg]
    · next b hsome =>
      rw [current_of_some hsome] at hfg
      refine List.map_congr_left fun e he => ?_
      split
      · next hk =>
        have heb : some e.2 = some b := by rw [← bucketOf_of_mem l.keys he, hk, hsome]
        cases heb
        exact congrArg (Prod.mk e.1) hfg
      · rfl
  simp only [put, hmap]

theorem checkAt_of_peekAt (hpos : 0 < l.limit) (hlimit : l.limit ≤ 2 ^ 32 - 1)
    (hpeek : l.peekAt agentId now = .ok ()) :
    l.checkAt agentId now = (.ok (), l.recordAt agentId now) := by
  have hcurrent : (l.pruneIfDue now).current agentId now = l.current agentId now :=
    Unpruned.current (Unpruned.prune ⟨rfl, fun _ => .inl rfl⟩) agentId
  have hlt : (l.current agentId now).count < l.limit := by
    cases hb : l.bucket? agentId with
    | none =>
      rw [current_of_none hb]
      exact hpos
    | some b =>
      rw [current_of_some hb]
      cases hover : b.expired now with
      | true =>
        rw [Bucket.rolled_of_expired hover]
        exact hpos
      | false =>
        rw [Bucket.rolled_of_live hover]
        by_contra hfull
        simp [peekAt, hb, hover, not_lt.1 hfull] at hpeek
  -- below the limit the saturating addition does not saturate
  have hput : (l.pruneIfDue now).put agentId now (fun b => { b with count := b.count + 1 }) =
      (l.pruneIfDue now).put agentId now Bucket.charged := by
    refine put_congr ?_
    rw [hcurrent, Bucket.charged, min_eq_left (by omega)]
  rw [checkAt, checkPruned, hcurrent, limit_pruneIfDue, if_neg (not_le.2 hlt), hput, recordAt_eq]

theorem live_of_pruneIfDue (hdue : l.pruneThreshold ≤ l.buckets.length) {k : String} {b : Bucket}
    (hb : (l.pruneIfDue now).bucket? k = some b) : l.bucket? k = some b ∧ b.expired now = false := by
  rw [pruneIfDue, if_neg (not_lt.2 hdue)] at hb
  replace hb : bucketOf (l.buckets.filter fun e => !e.2.expired now) k = some b := hb
  rw [bucketOf_filter l.keys (fun b => !b.expired now) k, Option.filter_eq_some_iff] at hb
  exact ⟨hb.1, by simpa using hb.2⟩

end AgentRateLimiter

namespace CeilingLimiter

open AgentRateLimiter (Bucket)

theorem Mirrors.bucket? {t : ℤ} {p u : CeilingLimiter} (h : Mirrors t p u) {k : String} {b : Bucket}
    (hb : p.bucket? k = some b) : u.bucket? k = some b := by
  rcases h.map.2 k with hk | ⟨hnone, -⟩
  · exact hk.symm.trans hb
  · cases hnone.symm.trans hb

/-- **The in-memory limiter.**  For every trace whose clock does not go back, from a new limiter: its
    answers are those of one that never prunes; no window admits more than the limit, nor more than the
    ceiling; with a positive limit a `record` after a successful `peek` leaves what an admitted `check`
    leaves; and a prune keeps only buckets of the current window. -/
theorem limiter_prunes_unseen (limit globalLimit : UInt32) (start : ℤ) (trace : List (LimiterOp × ℤ))
    (hclock : Clocked start trace) :
    let new := withGlobalCeiling limit globalLimit start
    let reached := (new.run true trace).1
    let outcomes := (new.run true trace).2
    outcomes = (new.run false trace).2 ∧
    (∀ k w, outcomes.countP (·.admits k w) ≤ limit.toNat) ∧
    (globalLimit.toNat ≠ 2 ^ 32 - 1 → ∀ w, outcomes.countP (·.admitsGlobal w) ≤ globalLimit.toNat) ∧
    (∀ k now, 0 < limit.toNat → reached.peekAt k now = .ok () →
      reached.checkAt k now = (.ok (), reached.recordAt k now)) ∧
    (∀ k now later, ∃ o rest,
      (new.run true (trace ++ (.peek k, now) :: later)).2 = outcomes ++ o :: rest ∧
        (new.run true (trace ++ later)).2 = outcomes ++ rest) ∧
    (∀ now, lastReading start trace ≤ now → reached.pruneThreshold ≤ reached.buckets.length →
      ∀ k b, (reached.pruneIfDue now).bucket? k = some b →
        b.windowStart ≤ now ∧ now < b.windowStart + rateWindow) := by
  intro new reached outcomes
  obtain ⟨houts, hmirror⟩ := Mirrors.run new hclock
  have hinv := meterInv_run limit globalLimit hclock
  refine ⟨houts, fun k w => ?_, fun hon w => ?_, fun k now hpos hpeek => ?_, fun k now later => ?_,
    fun now hle hdue k b hb => ?_⟩
  · show (new.run true trace).2.countP _ ≤ _
    rw [houts]
    exact (hinv.keys k).bound w
  · show (new.run true trace).2.countP _ ≤ _
    rw [houts]
    exact (hinv.global hon).bound w
  · have hlimit : reached.limit = limit.toNat := hmirror.map.1.trans hinv.limit_eq
    have hmax : limit.toNat ≤ 2 ^ 32 - 1 := Nat.le_pred_of_lt limit.toNat_lt
    exact AgentRateLimiter.checkAt_of_peekAt (hlimit ▸ hpos) (hlimit ▸ hmax) hpeek
  · refine ⟨reached.outcome true (.peek k, now), (reached.run true later).2, ?_, ?_⟩
    · rw [run, History.run_append, History.run_cons]
      rfl
    · rw [run, History.run_append]
      rfl
  · obtain ⟨hkept, hlive⟩ := AgentRateLimiter.live_of_pruneIfDue hdue hb
    refine ⟨((hinv.keys k).started b (hmirror.bucket? hkept)).trans hle, ?_⟩
    by_contra hover
    rw [Bucket.expired_iff.2 (not_lt.1 hover)] at hlive
    cases hlive

/-- One admission a minute and a ceiling of two: a denied check, and a new window. -/
theorem limiter_prunes_unseen_sample :
    let trace := [(.check "a", 1), (.check "a", 2), (.peek "b", 3), (.checkGlobal, 4),
      (.check "a", 60000000001)]
    Clocked 0 trace ∧
      (((withGlobalCeiling 1 2 0).run true trace).2.map (·.admits "a" 1) =
        [true, false, false, false, false]) ∧
      ((withGlobalCeiling 1 2 0).run true trace).2.countP (·.admits "a" 60000000001) ≤ 1 := by
  intro trace
  have hclock : Clocked 0 trace := by
    simp [Clocked, trace]
  exact ⟨hclock, by decide, (limiter_prunes_unseen 1 2 0 trace hclock).2.1 "a" 60000000001⟩

/-- With the limit 0 a `peek` of a new key succeeds, and a `record` leaves a count that no `check` does. -/
theorem record_passes_zero_limit :
    let new := withGlobalCeiling 0 2 0
    new.peekAt "a" 1 = .ok () ∧ ((new.recordAt "a" 1).bucket? "a").map (·.count) = some 1 ∧
      (new.checkAt "a" 1).1 ≠ .ok () ∧ ((new.checkAt "a" 1).2.bucket? "a").map (·.count) = some 0 := by
  decide

end CeilingLimiter

end AcdpRegistry
