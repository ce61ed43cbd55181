/-
  The per-agent publish limiter (`acdp-registry-core/src/rate_limit.rs`): a fixed window
  of 60 s for each agent, and the guard that charges a publish where it is dropped.

  A bucket whose window is over counts as empty.  `peek` only reads; `record` is the one
  call that inserts, and with it may come a prune of the buckets that are over.
-/
import Mathlib.Tactic

namespace AcdpRegistry

/-- `WINDOW`, in nanoseconds. -/
def rateWindow : ℕ := 60 * 10 ^ 9

def pruneAt : ℕ := 4096

/-- `Instant::duration_since`: an earlier instant is at distance 0. -/
def elapsedSince (start now : ℤ) : ℕ := (now - start).toNat

def retryAfterSecs (elapsed : ℕ) : ℕ := max 1 ((rateWindow - elapsed) / 10 ^ 9)

structure AgentRateLimiter.Bucket where
  windowStart : ℤ
  count : ℕ
  deriving DecidableEq, Repr

namespace AgentRateLimiter.Bucket

variable (b : Bucket) (now : ℤ)

def expired : Bool := rateWindow ≤ elapsedSince b.windowStart now

/-- The bucket in its window at `now`: a window that is over begins again. -/
def rolled : Bucket := if b.expired now then ⟨now, 0⟩ else b

/-- `saturating_add(1)` on 32 bits. -/
def charged : Bucket := { b with count := min (b.count + 1) (2 ^ 32 - 1) }

end AgentRateLimiter.Bucket

/-- The publish limiter: its limit, the map of buckets, and the size that triggers the next prune. -/
structure AgentRateLimiter where
  limit : ℕ
  buckets : List (String × AgentRateLimiter.Bucket)
  pruneThreshold : ℕ := pruneAt
  keys : (buckets.map Prod.fst).Nodup

namespace AgentRateLimiter

def bucketOf (buckets : List (String × Bucket)) (agentId : String) : Option Bucket :=
  (buckets.find? (·.1 = agentId)).map Prod.snd

variable (l : AgentRateLimiter) (agentId : String) (now : ℤ)

def bucket? : Option Bucket := bucketOf l.buckets agentId

/-- `peek_at`: the seconds to wait, for an agent over its budget. -/
def peekAt : Except ℕ Unit :=
  match l.bucket? agentId with
  | none => .ok ()
  | some b =>
    if b.expired now then .ok ()
    else if l.limit ≤ b.count then .error (retryAfterSecs (elapsedSince b.windowStart now))
    else .ok ()

def pruneIfDue : AgentRateLimiter :=
  if l.buckets.length < l.pruneThreshold then l
  else
    let live := l.buckets.filter fun e => !e.2.expired now
    { l with
      buckets := live
      pruneThreshold := max (live.length * 2) pruneAt
      keys := (List.filter_sublist.map _).nodup l.keys }

/-- The map after `entry(agent_id).or_insert(..)` and the change of the entry. -/
def upsert (new : Bucket) (f : Bucket → Bucket) (buckets : List (String × Bucket)) :
    List (String × Bucket) :=
  match bucketOf buckets agentId with
  | none => buckets ++ [(agentId, f new)]
  | some _ => buckets.map fun e => if e.1 = agentId then (e.1, f e.2) else e

variable {buckets : List (String × Bucket)}

theorem bucketOf_eq_none : bucketOf buckets agentId = none ↔ agentId ∉ buckets.map Prod.fst := by
  rw [bucketOf, Option.map_eq_none_iff, List.find?_eq_none]
  simp only [decide_eq_true_eq, List.mem_map, not_exists, not_and]

theorem keys_upsert {new : Bucket} {f : Bucket → Bucket} (h : (buckets.map Prod.fst).Nodup) :
    ((upsert agentId new f buckets).map Prod.fst).Nodup := by
  unfold upsert
  split
  · next hnone =>
    rw [List.map_append]
    refine List.nodup_append.2 ⟨h, by simp, ?_⟩
    rintro a ha b hb rfl
    obtain rfl : a = agentId := by simpa using hb
    exact (bucketOf_eq_none a).1 hnone ha
  · have hmap : (buckets.map fun e => if e.1 = agentId then (e.1, f e.2) else e).map Prod.fst =
        buckets.map Prod.fst := by
      rw [List.map_map]
      refine List.map_congr_left fun e _ => ?_
      simp only [Function.comp_apply]
      split <;> rfl
    rw [hmap]
    exact h

def recordAt : AgentRateLimiter :=
  let pruned := l.pruneIfDue now
  { pruned with
    buckets := upsert agentId ⟨now, 0⟩ (fun b => (b.rolled now).charged) pruned.buckets
    keys := keys_upsert agentId pruned.keys }

/-! ## What a record does -/

variable {l agentId now}

theorem bucketOf_upsert (new : Bucket) (f : Bucket → Bucket) (buckets : List (String × Bucket))
    (a : String) : bucketOf (upsert agentId new f buckets) a =
      if a = agentId then some (f ((bucketOf buckets agentId).getD new)) else bucketOf buckets a := by
  unfold upsert
  split
  · next hnone =>
    simp only [bucketOf, List.find?_append]
    split
    · next ha =>
      subst ha
      simp only [bucketOf, Option.map_eq_none_iff] at hnone
      simp [hnone]
    · next ha => simp [Ne.symm ha]
  · next b hsome =>
    have hkey : ((fun e : String × Bucket => decide (e.1 = a)) ∘
        fun e => if e.1 = agentId then (e.1, f e.2) else e) = fun e => decide (e.1 = a) := by
      funext e
      simp only [Function.comp_apply]
      split <;> rfl
    simp only [bucketOf, List.find?_map, hkey]
    cases hfind : buckets.find? (·.1 = a) with
    | none =>
      split
      · next ha =>
        subst ha
        simp [bucketOf, hfind] at hsome
      · rfl
    | some e =>
      have he : e.1 = a := by simpa using List.find?_some hfind
      split
      · next ha =>
        subst ha
        simp [he, hfind]
      · next ha => simp [he, ha]

theorem bucketOf_filter (h : (buckets.map Prod.fst).Nodup) (p : Bucket → Bool) (a : String) :
    bucketOf (buckets.filter fun e => p e.2) a = (bucketOf buckets a).filter p := by
  induction buckets with
  | nil => rfl
  | cons e buckets ih =>
    obtain ⟨hnew, htail⟩ := List.nodup_cons.1 h
    by_cases hk : e.1 = a
    · have hgone : bucketOf buckets a = none := (bucketOf_eq_none a).2 (hk ▸ hnew)
      cases hp : p e.2 with
      | true => simp [bucketOf, hp, hk, Option.filter]
      | false =>
        have hrest := ih htail
        rw [hgone] at hrest
        rw [List.filter_cons_of_neg (by simp [hp]), hrest]
        simp [bucketOf, hk, hp, Option.filter]
    · have hcons : bucketOf (e :: buckets) a = bucketOf buckets a := by simp [bucketOf, hk]
      rw [hcons, ← ih htail, List.filter_cons]
      split
      · simp [bucketOf, hk]
      · rfl

theorem bucket?_pruneIfDue (l : AgentRateLimiter) (now : ℤ) (a : String) :
    (l.pruneIfDue now).bucket? a = l.bucket? a ∨
      (l.pruneIfDue now).bucket? a = (l.bucket? a).filter fun b => !b.expired now := by
  unfold pruneIfDue
  split
  · exact .inl rfl
  · exact .inr (bucketOf_filter l.keys (fun b => !b.expired now) a)

/-- One charge: the agent's bucket counts one more, in a new window if its own is over; another bucket
    is as it was, or was over and is gone. -/
def Charged (agentId : String) (now : ℤ) (l l' : AgentRateLimiter) : Prop :=
  l'.bucket? agentId = some (((l.bucket? agentId).getD ⟨now, 0⟩).rolled now).charged ∧
    ∀ a, a ≠ agentId → l'.bucket? a = l.bucket? a ∨
      (l'.bucket? a = none ∧ ∃ b, l.bucket? a = some b ∧ b.expired now = true)

theorem bucket?_recordAt_self : (l.recordAt agentId now).bucket? agentId =
    some (((l.bucket? agentId).getD ⟨now, 0⟩).rolled now).charged := by
  rw [bucket?, recordAt, bucketOf_upsert, if_pos rfl]
  rcases bucket?_pruneIfDue l now agentId with h | h
  · rw [← h]
    rfl
  · replace h : bucketOf (l.pruneIfDue now).buckets agentId = _ := h
    rw [h]
    cases l.bucket? agentId with
    | none => rfl
    | some b =>
      cases hb : b.expired now with
      | true => simp [Option.filter, hb, Bucket.rolled]
      | false => simp [Option.filter, hb]

theorem bucket?_recordAt_of_ne {a : String} (ha : a ≠ agentId) :
    (l.recordAt agentId now).bucket? a = l.bucket? a ∨
      ((l.recordAt agentId now).bucket? a = none ∧ ∃ b, l.bucket? a = some b ∧ b.expired now = true) := by
  have hsame : (l.recordAt agentId now).bucket? a = (l.pruneIfDue now).bucket? a := by
    rw [bucket?, recordAt, bucketOf_upsert, if_neg ha]
    rfl
  rw [hsame]
  rcases bucket?_pruneIfDue l now a with h | h
  · exact .inl h
  · rw [h]
    cases l.bucket? a with
    | none => exact .inl rfl
    | some b =>
      cases hb : b.expired now with
      | true => exact .inr ⟨by simp [Option.filter, hb], b, rfl, hb⟩
      | false => exact .inl (by simp [Option.filter, hb])

/-- **A record charges the agent once**, and no other. -/
theorem charged_recordAt (l : AgentRateLimiter) (agentId : String) (now : ℤ) :
    Charged agentId now l (l.recordAt agentId now) :=
  ⟨bucket?_recordAt_self, fun _ ha => bucket?_recordAt_of_ne ha⟩

end AgentRateLimiter

/-! ## The guard -/

/-- `PublishCharge`; its limiter is the server's. -/
structure PublishCharge where
  agentId : String
  armed : Bool := false
  deriving DecidableEq, Repr

namespace PublishCharge

def arm (charge : PublishCharge) : PublishCharge := { charge with armed := true }

/-- What its `drop` at an instant does to the limiter, if there is one. -/
def drop (charge : PublishCharge) (now : ℤ) (limiter : Option AgentRateLimiter) :
    Option AgentRateLimiter :=
  if charge.armed then limiter.map (·.recordAt charge.agentId now) else limiter

end PublishCharge

end AcdpRegistry
