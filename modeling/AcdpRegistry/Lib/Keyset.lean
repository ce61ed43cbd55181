/-
  Keyset pagination.

  A table is read in the order of a key; a page is a first part of what is left of it,
  and the cursor to the next page is the key of the last row that was read, whether or
  not the row was kept.  So what is left is always a last part of the sorted table.

  - `sort` is `ORDER BY`, a `Paginator` cuts a page out of the rows that were read;
  - `Follows` is a walk along the cursors that comes to its end;
  - `follows_suffix`: a walk whose every request takes at least one row of what is left
    serves the whole table.
-/
import Mathlib.Data.List.Sort
import Mathlib.Tactic

namespace Lib.Keyset

variable {A B C K ε : Type} [LinearOrder K] (key : A → K)

/-! ## Sorted tables -/

def sort (rows : List A) : List A := rows.insertionSort fun a b => key a ≤ key b

/-- Rows with distinct keys, in their order. -/
def Sorted (rows : List A) : Prop := rows.Pairwise fun a b => key a < key b

variable {key}

theorem perm_sort (rows : List A) : (sort key rows).Perm rows := List.perm_insertionSort _ _

theorem sorted_sort {rows : List A} (h : (rows.map key).Nodup) : Sorted key (sort key rows) := by
  have hle : (sort key rows).Pairwise fun a b => key a ≤ key b := by
    have : Std.Total fun a b : A => key a ≤ key b := ⟨fun a b => le_total _ _⟩
    have : IsTrans A fun a b => key a ≤ key b := ⟨fun _ _ _ => le_trans⟩
    exact List.pairwise_insertionSort _ _
  have hne : (sort key rows).Pairwise fun a b => key a ≠ key b :=
    List.pairwise_map.1 (((perm_sort rows).map key).nodup_iff.2 h)
  exact hle.imp₂ (fun _ _ hle hne => lt_of_le_of_ne hle hne) hne

theorem Sorted.eq_of_perm {l l' : List A} (h : Sorted key l) (h' : Sorted key l') (hperm : l.Perm l') :
    l = l' :=
  hperm.eq_of_pairwise (fun _ _ _ _ hab hba => absurd hba hab.asymm) h h'

theorem sort_eq_of_perm {rows rows' : List A} (h : (rows.map key).Nodup) (hperm : rows.Perm rows') :
    sort key rows = sort key rows' :=
  (sorted_sort h).eq_of_perm (sorted_sort ((hperm.map key).nodup_iff.1 h))
    (((perm_sort rows).trans hperm).trans (perm_sort rows').symm)

theorem sort_filter {rows : List A} (h : (rows.map key).Nodup) (p : A → Bool) :
    sort key (rows.filter p) = (sort key rows).filter p :=
  (sorted_sort (h.sublist ((List.filter_sublist).map key))).eq_of_perm ((sorted_sort h).filter p)
    ((perm_sort _).trans ((perm_sort rows).symm.filter p))

theorem Sorted.filter_after {before page after : List A} {last : A}
    (h : Sorted key (before ++ page ++ after)) (hlast : page.getLast? = some last) :
    ((before ++ page ++ after).filter fun a => key last < key a) = after := by
  obtain ⟨hread, -, hcross⟩ := List.pairwise_append.1 h
  obtain ⟨-, hpage, hbefore⟩ := List.pairwise_append.1 hread
  obtain ⟨init, rfl⟩ := List.getLast?_eq_some_iff.1 hlast
  obtain ⟨-, -, hinit⟩ := List.pairwise_append.1 hpage
  rw [List.filter_append, List.filter_eq_nil_iff.2, List.filter_eq_self.2, List.nil_append]
  · exact fun a ha => decide_eq_true (hcross last (by simp) a ha)
  · intro a ha
    rw [decide_eq_true_eq, not_lt]
    rcases List.mem_append.1 ha with ha | ha
    · exact (hbefore a ha last (by simp)).le
    · rcases List.mem_append.1 ha with ha | ha
      · exact (hinit a ha last (by simp)).le
      · rw [List.mem_singleton.1 ha]

/-- How a column compares: its values by their keys. -/
structure SortKey (X : Type) where
  Key : Type
  [order : LinearOrder Key]
  key : X → Key

attribute [instance] SortKey.order

/-! ## Pages -/

structure Page (B C : Type) where
  items : List B
  nextCursor : Option C

/-- What cuts a page out of the rows that were read: it keeps some of the first `limit`, and its cursor is
    that of the last of these, if one more row was read. -/
structure Paginator (C : Type) where
  paginate {A : Type} (limit : ℕ) (keep : A → Bool) (cursor : A → C) (raw : List A) : Page A C
  items_eq {A : Type} (limit : ℕ) (keep : A → Bool) (cursor : A → C) (raw : List A) :
    (paginate limit keep cursor raw).items = (raw.take limit).filter keep
  nextCursor_eq {A : Type} (limit : ℕ) (keep : A → Bool) (cursor : A → C) (raw : List A) :
    (paginate limit keep cursor raw).nextCursor =
      if limit < raw.length then (raw.take limit).getLast?.map cursor else none

def Paginator.firstRows : Paginator C where
  paginate limit keep cursor raw := ⟨(raw.take limit).filter keep,
    if limit < raw.length then (raw.take limit).getLast?.map cursor else none⟩
  items_eq _ _ _ _ := rfl
  nextCursor_eq _ _ _ _ := rfl

theorem Paginator.items_take (pages : Paginator C) (limit : ℕ) (keep : A → Bool) (cursor : A → C)
    (rows : List A) : (pages.paginate limit keep cursor (rows.take (limit + 1))).items =
      (rows.take limit).filter keep := by
  rw [pages.items_eq, List.take_take, min_eq_left (Nat.le_succ limit)]

theorem Paginator.mem_of_take (pages : Paginator C) {limit : ℕ} {keep : A → Bool} {cursor : A → C}
    {rows : List A} {a : A} (h : a ∈ (pages.paginate limit keep cursor (rows.take (limit + 1))).items) :
    a ∈ rows := by
  rw [pages.items_take] at h
  exact List.mem_of_mem_take (List.mem_of_mem_filter h)

theorem Paginator.nextCursor_take (pages : Paginator C) (limit : ℕ) (keep : A → Bool) (cursor : A → C)
    (rows : List A) : (pages.paginate limit keep cursor (rows.take (limit + 1))).nextCursor =
      if limit < rows.length then (rows.take limit).getLast?.map cursor else none := by
  rw [pages.nextCursor_eq, List.take_take, min_eq_left (Nat.le_succ limit), List.length_take]
  have hlt : limit < min (limit + 1) rows.length ↔ limit < rows.length := by omega
  simp only [hlt]

/-- A table is cut right after the last of the first `limit` rows that are selected. -/
theorem exists_cut_filter {p : A → Bool} {limit : ℕ} {left : List A} (hpos : 0 < limit)
    (hlen : limit < (left.filter p).length) :
    ∃ page rest last, left = page ++ rest ∧ rest ≠ [] ∧ page.filter p = (left.filter p).take limit ∧
      page.getLast? = some last ∧ ((left.filter p).take limit).getLast? = some last := by
  have hne : (left.filter p).take limit ≠ [] := by
    rw [Ne, List.take_eq_nil_iff, ← List.length_eq_zero_iff]
    omega
  obtain ⟨init, hinit⟩ := List.getLast?_eq_some_iff.1 (List.getLast?_eq_some_getLast hne)
  generalize ((left.filter p).take limit).getLast hne = last at hinit
  have hsplit : left.filter p = init ++ last :: (left.filter p).drop limit := by
    rw [List.append_cons, ← hinit, List.take_append_drop]
  obtain ⟨before, after, hleft, hbefore, hafter⟩ := List.filter_eq_append_iff.1 hsplit
  obtain ⟨skipped, rest, rfl, hskipped, hlast, hrest⟩ := List.filter_eq_cons_iff.1 hafter
  refine ⟨before ++ skipped ++ [last], rest, last, ?_, ?_, ?_, List.getLast?_concat, ?_⟩
  · rw [hleft, List.append_assoc, List.append_assoc, List.singleton_append]
  · rintro rfl
    rw [List.filter_nil, eq_comm, List.drop_eq_nil_iff] at hrest
    omega
  · rw [hinit, List.filter_append, List.filter_append, hbefore, List.filter_eq_nil_iff.2 hskipped,
      List.append_nil, List.filter_cons_of_pos hlast, List.filter_nil]
  · rw [hinit, List.getLast?_concat]

/-! ## Walks -/

variable {serves : List A → List B → Prop} {stands : C → List A → Prop} {left : List A}

/-- From the `i`-th request on, with this cursor, the walk along the cursors ends, and serves these
    items. -/
inductive Follows (fetch : ℕ → Option C → Except ε (Page B C)) : ℕ → Option C → List B → Prop
  | last {i : ℕ} {c : Option C} {items : List B} :
    fetch i c = .ok ⟨items, none⟩ → Follows fetch i c items
  | next {i : ℕ} {c : Option C} {items rest : List B} {c' : C} :
    fetch i c = .ok ⟨items, some c'⟩ → Follows fetch (i + 1) (some c') rest →
      Follows fetch i c (items ++ rest)

/-- A page takes the first `m ≠ 0` rows of what is left and serves them; its cursor stands for the rest,
    if there is any. -/
structure Takes (serves : List A → List B → Prop) (stands : C → List A → Prop) (left : List A)
    (page : Page B C) (m : ℕ) : Prop where
  pos : 0 < m
  items : serves (left.take m) page.items
  done : left.length ≤ m → page.nextCursor = none
  more : m < left.length → ∃ c, page.nextCursor = some c ∧ stands c (left.drop m)

theorem Takes.imp {D : Type} {serves' : List A → List D → Prop} {stands' : C → List A → Prop}
    {page : Page B C} {m : ℕ} {items' : List D} (h : Takes serves stands left page m)
    (hserves : serves (left.take m) page.items → serves' (left.take m) items')
    (hstands : ∀ c rest, stands c rest → stands' c rest) :
    Takes serves' stands' left ⟨items', page.nextCursor⟩ m := by
  refine ⟨h.pos, hserves h.items, h.done, fun hlen => ?_⟩
  obtain ⟨c, hc, hrest⟩ := h.more hlen
  exact ⟨c, hc, hstands c _ hrest⟩

section Append

variable (happend : ∀ {l l' items items'}, serves l items → serves l' items' →
  serves (l ++ l') (items ++ items'))

include happend

theorem Takes.append {stands' : C → List A → Prop} {page page' : Page B C} {m m' : ℕ}
    (h : Takes serves stands left page m) (h' : Takes serves stands' (left.drop m) page' m') :
    Takes serves stands' left ⟨page.items ++ page'.items, page'.nextCursor⟩ (m + m') := by
  refine ⟨Nat.add_pos_left h.pos m', ?_, fun hlen => h'.done ?_, fun hlen => ?_⟩
  · rw [List.take_add]
    exact happend h.items h'.items
  · rw [List.length_drop]
    omega
  · obtain ⟨c, hc, hstands⟩ := h'.more (by rw [List.length_drop]; omega)
    rw [List.drop_drop] at hstands
    exact ⟨c, hc, hstands⟩

/-- **A walk serves the whole table**, if every request takes a first part of what its cursor stands
    for. -/
theorem follows_suffix {fetch : ℕ → Option C → Except ε (Page B C)}
    (stands : ℕ → Option C → List A → Prop)
    (hfetch : ∀ i c left, stands i c left → ∃ page m, fetch i c = .ok page ∧
      Takes serves (fun c => stands (i + 1) (some c)) left page m) {i : ℕ} {c : Option C}
    (h : stands i c left) : ∃ items, Follows fetch i c items ∧ serves left items := by
  induction hn : left.length using Nat.strong_induction_on generalizing i c left with
  | _ n ih =>
    obtain ⟨⟨items, next⟩, m, hpage, htakes⟩ := hfetch i c left h
    have hitems : serves (left.take m) items := htakes.items
    by_cases hm : m < left.length
    · obtain ⟨c', hc', hstands⟩ := htakes.more hm
      have hnext : next = some c' := hc'
      subst hnext
      have hlen : (left.drop m).length < n := by
        have := htakes.pos
        rw [List.length_drop]
        omega
      obtain ⟨rest, hrest, hserves⟩ := ih _ hlen hstands rfl
      refine ⟨items ++ rest, .next hpage hrest, ?_⟩
      rw [← List.take_append_drop m left]
      exact happend hitems hserves
    · have hnext : next = none := htakes.done (not_lt.1 hm)
      subst hnext
      rw [List.take_of_length_le (not_lt.1 hm)] at hitems
      exact ⟨items, .last hpage, hitems⟩

end Append

end Lib.Keyset
