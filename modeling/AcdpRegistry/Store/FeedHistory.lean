/-
  The change feed together with every row it was ever given.

  The abstract feed is an append-only log.  `FeedHistory` pairs the stored table
  with that log; retention hides an initial part of the log and nothing else, so
  a position names the same rows before and after a prune.
-/
import AcdpRegistry.Store.Changes
import AcdpRegistry.Lib.Trace

namespace AcdpRegistry

open Lib

/-- A stored feed and the rows appended to it so far. -/
structure FeedHistory where
  store : FeedStore
  log : List FeedRow
  ascending : Ascending FeedRow.seq log
  stored : store.rows = log.filter fun r => decide (store.prunedThrough < r.seq)
  logged : ∀ r ∈ log, r.seq ≤ store.head

namespace FeedHistory

variable (sha256 : Sha256) (f : FeedHistory) (gap : ℕ) (a : FeedAppend) (nowMs : ℤ)

def empty : FeedHistory :=
  ⟨FeedStore.empty, [], Ascending.nil, rfl, fun _ h => absurd h List.not_mem_nil⟩

theorem head_append (s : FeedStore) :
    (s.append gap a nowMs).head = s.head + 1 + gap := by
  simp [FeedStore.head, FeedStore.append, FeedStore.nextRow]

theorem ascending_append :
    Ascending FeedRow.seq (f.log ++ [f.store.nextRow gap a nowMs]) := by
  refine f.ascending.append (List.pairwise_singleton _ _) fun r hr r' hr' => ?_
  have := f.logged r hr
  simp only [List.mem_singleton] at hr'
  subst hr'; simp only [FeedStore.nextRow]; omega

theorem rows_append_eq :
    (f.store.append gap a nowMs).rows = (f.log ++ [f.store.nextRow gap a nowMs]).filter
      fun r => decide ((f.store.append gap a nowMs).prunedThrough < r.seq) := by
  have h := f.store.prunedThrough_le_head
  have hlt : f.store.prunedThrough < f.store.head + 1 + gap := by omega
  simp [FeedStore.append, FeedStore.nextRow, List.filter_append, f.stored, hlt]

theorem seq_le_head_append :
    ∀ r ∈ f.log ++ [f.store.nextRow gap a nowMs], r.seq ≤ (f.store.append gap a nowMs).head := by
  intro r hr
  rw [head_append]
  rcases List.mem_append.1 hr with hr | hr
  · have := f.logged r hr; omega
  · simp only [List.mem_singleton] at hr; subst hr; simp [FeedStore.nextRow]

def append : FeedHistory where
  store := f.store.append gap a nowMs
  log := f.log ++ [f.store.nextRow gap a nowMs]
  ascending := f.ascending_append gap a nowMs
  stored := f.rows_append_eq gap a nowMs
  logged := f.seq_le_head_append gap a nowMs

theorem prune_cases (s : FeedStore) (olderThanMs : ℤ) (batch : ℕ) :
    (s.prune sha256 olderThanMs batch).1 = s ∨
      ∃ last ∈ s.rows, (s.prune sha256 olderThanMs batch).1.prunedThrough = last.seq ∧
        (s.prune sha256 olderThanMs batch).1.prunedThroughFp = some (last.fingerprint sha256) ∧
        (s.prune sha256 olderThanMs batch).1.rows =
          s.rows.filter fun r => decide (last.seq < r.seq) := by
  unfold FeedStore.prune
  split
  · exact Or.inl rfl
  · next last h =>
    have hmem : last ∈ s.rows :=
      List.mem_of_mem_take ((List.takeWhile_sublist _).mem (List.mem_of_getLast? h))
    have := s.retained last hmem
    exact Or.inr ⟨last, hmem, max_eq_right this.le, if_pos this.le, rfl⟩

theorem head_prune (s : FeedStore) (olderThanMs : ℤ) (batch : ℕ) :
    (s.prune sha256 olderThanMs batch).1.head = s.head := by
  rcases prune_cases sha256 s olderThanMs batch with h | ⟨last, hmem, hp, -, hr⟩
  · rw [h]
  · cases hl : s.rows.getLast? with
    | none => rw [List.getLast?_eq_none_iff.1 hl] at hmem; simp at hmem
    | some top =>
      have hle := s.ascending.le_getLast hmem hl
      obtain ⟨init, hinit⟩ := List.getLast?_eq_some_iff.1 hl
      rcases hle.lt_or_eq with hlt | heq
      · simp [FeedStore.head, hp, hr, hinit, List.filter_append, hlt]
      · have hnil : s.rows.filter (fun r => decide (last.seq < r.seq)) = [] := by
          refine List.filter_eq_nil_iff.2 fun r hr => ?_
          have := s.ascending.le_getLast hr hl
          simp only [decide_eq_true_eq]; omega
        rw [hnil] at hr
        simp [FeedStore.head, hp, hr, hl, heq]

def prune (olderThanMs : ℤ) (batch : ℕ) : FeedHistory where
  store := (f.store.prune sha256 olderThanMs batch).1
  log := f.log
  ascending := f.ascending
  stored := by
    rcases prune_cases sha256 f.store olderThanMs batch with h | ⟨last, hmem, hp, -, hr⟩
    · rw [h]; exact f.stored
    · have hlt := f.store.retained last hmem
      rw [hr, hp, f.stored, List.filter_filter]
      refine List.filter_congr fun r _ => ?_
      by_cases h : last.seq < r.seq
      · simp [h, hlt.trans h]
      · simp [h]
  logged := by rw [head_prune]; exact f.logged

inductive Step : FeedHistory → FeedHistory → Prop
  | append (f : FeedHistory) (gap : ℕ) (a : FeedAppend) (nowMs : ℤ) : Step f (f.append gap a nowMs)
  | prune (f : FeedHistory) (olderThanMs : ℤ) (batch : ℕ) : Step f (f.prune sha256 olderThanMs batch)

/-- `f'` extends `f`: the log grew, above the head of `f`. -/
def Extends (f f' : FeedHistory) : Prop :=
  f.store.head ≤ f'.store.head ∧
    ∃ new, f'.log = f.log ++ new ∧ ∀ r ∈ new, f.store.head < r.seq

theorem Extends.refl : f.Extends f := ⟨le_rfl, [], by simp, by simp⟩

theorem Extends.trans (f g h : FeedHistory) (hfg : f.Extends g) (hgh : g.Extends h) :
    f.Extends h := by
  obtain ⟨hle, new, hlog, hnew⟩ := hfg
  obtain ⟨hle', new', hlog', hnew'⟩ := hgh
  refine ⟨hle.trans hle', new ++ new', by rw [hlog', hlog, List.append_assoc], fun r hr => ?_⟩
  rcases List.mem_append.1 hr with hr | hr
  · exact hnew r hr
  · exact lt_of_le_of_lt hle (hnew' r hr)

theorem step_extends {f f' : FeedHistory} (h : Step sha256 f f') : f.Extends f' := by
  cases h with
  | append gap a nowMs =>
    refine ⟨?_, [f.store.nextRow gap a nowMs], rfl, fun r hr => ?_⟩
    · simp only [append, head_append]; omega
    · simp only [List.mem_singleton] at hr; subst hr; simp only [FeedStore.nextRow]; omega
  | prune olderThanMs batch =>
    refine ⟨?_, [], by simp [prune], by simp⟩
    simp only [prune, head_prune]; exact le_rfl

theorem trace_extends {sha256 : Sha256} (T : Trace (Step sha256)) {i j : ℕ}
    (h : i ≤ j) : (T.state i).Extends (T.state j) :=
  T.rel Extends.refl Extends.trans (fun _ _ hst => step_extends sha256 hst) h

/-! ## Windows of the log -/

/-- The rows a filter selects between two positions. -/
def due (p : FeedRow → Bool) (lo hi : ℕ) : List FeedRow :=
  window FeedRow.seq (f.log.filter p) lo hi

theorem due_split (p : FeedRow → Bool) {lo mid hi : ℕ} (h₁ : lo ≤ mid) (h₂ : mid ≤ hi) :
    f.due p lo mid ++ f.due p mid hi = f.due p lo hi :=
  window_split (f.ascending.filter p) h₁ h₂

theorem due_ascending (p : FeedRow → Bool) (lo hi : ℕ) :
    Ascending FeedRow.seq (f.due p lo hi) :=
  (f.ascending.filter p).filter _

theorem Extends.due_eq {f f' : FeedHistory} (h : f.Extends f') (p : FeedRow → Bool) {lo hi : ℕ}
    (hhi : hi ≤ f.store.head) : f'.due p lo hi = f.due p lo hi := by
  obtain ⟨-, new, hlog, hnew⟩ := h
  have habove : ∀ r ∈ new.filter p, hi < r.seq :=
    fun r hr => lt_of_le_of_lt hhi (hnew r (List.mem_of_mem_filter hr))
  unfold due
  rw [hlog, List.filter_append, window_append, window_eq_nil_of_above habove, List.append_nil]

theorem window_stored (p : FeedRow → Bool) {lo hi : ℕ} (hlo : f.store.prunedThrough ≤ lo) :
    window FeedRow.seq (f.store.rows.filter p) lo hi = f.due p lo hi := by
  unfold due
  rw [f.stored, window_filter, window_filter_above f.log hlo, window_filter]

end FeedHistory

end AcdpRegistry
