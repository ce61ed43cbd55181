/-
  Publish commits are atomic and the transparency log is dense.

  With the log enabled, the leaf indexes are `0 .. n-1` and the leaves are, in
  order, the committed contexts, after any interleaving.  A publish shows all of
  its rows at one moment; a publish that answers an error or a replay shows none.
-/
import AcdpRegistry.Store.LifecycleSpec

namespace AcdpRegistry

open Lib

/-- The log's leaves are numbered from 0 and are the contexts, each once. -/
structure LogDense (db : Db) : Prop where
  indexes : db.logLeaves.map (·.leafIndex) = List.range db.logLeaves.length
  leaves : db.logLeaves.map (·.ctxId) = db.contexts.map (·.body.ctxId)
  unique : (db.contexts.map (·.body.ctxId)).Nodup

theorem LogDense.publish {st : SqlStore} {c : PublishCommit} {draw : PublishDraw} {seen : Db → Prop}
    {db : Db} {p : Publication} (h : LogDense db) (hlog : st.logEnabled = true)
    (hacc : Accepted st c draw seen db p) : LogDense (db.publish p) := by
  obtain ⟨r, text, -, -, hleaf⟩ := hacc.leaf hlog
  have hleaves : (db.publish p).logLeaves =
      db.logLeaves ++ [⟨db.logLeaves.length, p.row.body.ctxId, text.1, text.2⟩] := by
    simp [Db.publish, hleaf]
  refine ⟨?_, ?_, hacc.unique h.unique⟩
  · rw [hleaves, List.map_append, h.indexes, List.length_append, List.length_singleton,
      List.range_succ]
    rfl
  · rw [hleaves, Db.ctxIds_publish, List.map_append, h.leaves]
    rfl

theorem LogDense.step {seen : Db → Prop} {call : Call} {db db' : Db} {a : CallDone}
    (h : LogDense db) (hlog : call.store.logEnabled = true) (hs : CommitStep seen call db db' a) :
    LogDense db' := by
  cases hs with
  | publish hacc => exact h.publish hlog hacc
  | @event st event draw _ a ctx =>
    have hctx := Db.ctxIds_applyEvent a db
    exact ⟨h.indexes, h.leaves.trans hctx.symm, hctx ▸ h.unique⟩
  | evict => exact ⟨h.indexes, h.leaves, h.unique⟩

/-- **Publish commits are atomic and the log is dense.**  In every interleaving of calls with the log
    on, from an empty database: the leaves are numbered `0 .. n-1` and are the committed contexts, each
    once; a publish that commits adds all its rows in one step, and one that answers an error or a
    replay adds none. -/
theorem publish_atomic_log_dense {ι : Type} {call : ι → Call} (S : StoreSchedule call)
    (h0 : S.db 0 = {}) (hlog : ∀ i, (call i).store.logEnabled = true) :
    (∀ n, LogDense (S.db n)) ∧
    (∀ n, S.commits n = none → S.db (n + 1) = S.db n) ∧
    (∀ n i st c draw, S.commits n = some i → call i = .publish st c draw →
      ∃ p, S.db (n + 1) = (S.db n).publish p ∧ p.leaf.isSome ∧
        S.result i = .ok (.inserted p.response) ∧ Accepted st c draw (Saw S i) (S.db n) p) ∧
    (∀ i c m a, Answers S i c m a → (∀ r, a ≠ .ok (.inserted r)) →
      ∀ n, S.commits n ≠ some i) := by
  refine ⟨S.keeps ?_ fun n i hn hI => ?_, S.idle, fun n i st c draw hn hi => ?_, fun i c m a ha hnot n =>
    ha.not_commits S hnot n⟩
  · rw [h0]
    exact ⟨rfl, rfl, List.nodup_nil⟩
  · obtain ⟨a, -, hs⟩ := commit_step S hn
    exact (hI n le_rfl).step (hlog i) hs
  · obtain ⟨a, ha, hs⟩ := commit_step S hn
    have hlog := hlog i
    rw [hi] at hs hlog
    generalize hdb : S.db (n + 1) = db' at hs
    cases hs with
    | publish hacc =>
      obtain ⟨r, text, -, -, hleaf⟩ := hacc.leaf hlog
      exact ⟨_, rfl, by simp [hleaf], ha, hacc⟩

/-- Two versions of one context, the first under a key, on Postgres with the log. -/
def sampleLogCalls : Fin 2 → Call := fun i =>
  let st : SqlStore := { dialect := .postgres, api := Sample.api, logEnabled := true }
  if (i : ℕ) = 0 then
    .publish st
      { req := Sample.request "agent" "hash1", authority := "registry",
        idempotency := some ⟨"key", 10 ^ 9⟩, receiptMinter := some Sample.receipt }
      { now := 0, ctxId := "ctx1" }
  else
    .publish st
      { req := { Sample.request "agent" "hash2" with version := 2, supersedes := some "ctx1" },
        authority := "registry", receiptMinter := some Sample.receipt }
      { now := 10 ^ 6, ctxId := "ctx2" }

theorem publish_atomic_log_dense_sample :
    LogDense ((Schedule.serial (fun i => (sampleLogCalls i).tx) {}).db 2) ∧
      ((Schedule.serial (fun i => (sampleLogCalls i).tx) {}).db 2).logLeaves.map (·.ctxId) =
        ["ctx1", "ctx2"] := by
  refine ⟨(@publish_atomic_log_dense _ sampleLogCalls (Schedule.serial _ {}) rfl ?_).1 2, ?_⟩
  · decide
  · decide

end AcdpRegistry
