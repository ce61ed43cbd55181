/-
  Conditions of SQL statements: three-valued truth, `NULL`, and the two kinds of
  placeholder, `?` (the next bound value in the order of the text) and `$n` (the
  n-th bound value).

  A condition is over the columns `K` of a row and its JSON arrays `L`.  `Cond.Means`
  says what a condition comes to on a row, and `Build` is a condition that a program
  assembles piece by piece, with the values it binds on the way.
-/
import Mathlib.Data.String.Basic
import Mathlib.Tactic

namespace Lib.Sql

/-- A value; `NULL` is one. -/
inductive Value
  | null
  | text (s : String)
  | int (n : ℤ)
  | bool (b : Bool)
  | array (xs : List String)
  deriving DecidableEq, Repr

def Value.ofOption (s : Option String) : Value := s.elim .null .text

abbrev Truth := Option Bool

namespace Truth

def and : Truth → Truth → Truth
  | some false, _ => some false
  | some true, y => y
  | none, some false => some false
  | none, _ => none

def or : Truth → Truth → Truth
  | some true, _ => some true
  | some false, y => y
  | none, some true => some true
  | none, _ => none

def any (xs : List Truth) : Truth := xs.foldr or (some false)

theorem and_eq_true {x y : Truth} : x.and y = some true ↔ x = some true ∧ y = some true := by
  rcases x with - | (- | -) <;> rcases y with - | (- | -) <;> simp [and]

theorem or_eq_true {x y : Truth} : x.or y = some true ↔ x = some true ∨ y = some true := by
  rcases x with - | (- | -) <;> rcases y with - | (- | -) <;> simp [or]

theorem any_eq_true {xs : List Truth} : any xs = some true ↔ some true ∈ xs := by
  induction xs with
  | nil => simp [any]
  | cons x xs ih => rw [any, List.foldr_cons, or_eq_true, ← any, ih, List.mem_cons, eq_comm]

end Truth

/-- `a = b`. -/
def Value.eq : Value → Value → Truth
  | .null, _ | _, .null => none
  | a, b => some (decide (a = b))

/-- The comparisons that are not equality. -/
inductive Cmp
  | gt
  | ge
  | lt

def Cmp.test {α : Type} [LinearOrder α] : Cmp → α → α → Bool
  | .gt, a, b => decide (b < a)
  | .ge, a, b => decide (b ≤ a)
  | .lt, a, b => decide (a < b)

/-- `a > b`, `a >= b`, `a < b`; texts compare by their bytes, and values of two types are not compared. -/
def Value.cmp (o : Cmp) : Value → Value → Truth
  | .int m, .int n => some (o.test m n)
  | .text s, .text t => some (o.test s t)
  | _, _ => none

def Value.truth : Value → Truth
  | .bool b => some b
  | _ => none

/-- `a = ANY(xs)`. -/
def Value.eqAny (a : Value) : Value → Truth
  | .array xs => Truth.any (xs.map fun s => a.eq (.text s))
  | _ => none

/-- `xs @> to_jsonb(a)`; an absent array is `NULL`. -/
def Value.containedIn : Value → Option (List String) → Truth
  | .text s, some xs => some (xs.contains s)
  | .null, _ | _, none => none
  | _, some _ => some false

theorem Value.eq_eq_true {a b : Value} : a.eq b = some true ↔ a = b ∧ a ≠ .null := by
  cases a <;> cases b <;> simp [eq]

theorem Value.ofOption_eq_text {s : Option String} {t : String} :
    Value.ofOption s = .text t ↔ s = some t := by
  cases s <;> simp [ofOption]

theorem Value.ofOption_ne_null {s : Option String} : Value.ofOption s ≠ .null ↔ s.isSome := by
  cases s <;> simp [ofOption]

/-- Where a value of a condition comes from. -/
inductive Term (K : Type)
  | col (k : K)
  | lit (v : Value)
  /-- `?`. -/
  | next
  /-- `$n`. -/
  | nth (n : ℕ)

inductive Cond (K L : Type)
  | eq (a b : Term K)
  | cmp (o : Cmp) (a b : Term K)
  | isNotNull (a : Term K)
  | truth (a : Term K)
  /-- `a IN (?, …, ?)` with `n` placeholders. -/
  | inNext (a : Term K) (n : ℕ)
  /-- `a = ANY(b)`, where `b` is an array. -/
  | eqAny (a b : Term K)
  /-- `EXISTS (SELECT 1 FROM json_each(l) WHERE value = a)`. -/
  | jsonEach (l : L) (a : Term K)
  /-- `l @> to_jsonb(a)`. -/
  | jsonContains (l : L) (a : Term K)
  | and (c d : Cond K L)
  | or (c d : Cond K L)

/-- What a condition reads of a row. -/
structure Tuple (K L : Type) where
  col : K → Value
  /-- A JSON array of texts, if the member is present. -/
  array : L → Option (List String)

variable {K L : Type} (t : Tuple K L) (binds : List Value)

/-- The value of a term, and the bound values that the `?` after it draw from; a `?` without a bound
    value is `NULL`. -/
def Term.eval : Term K → List Value → Value × List Value
  | .col k, rest => (t.col k, rest)
  | .lit v, rest => (v, rest)
  | .next, rest => (rest.headD .null, rest.tail)
  | .nth n, rest => (binds.getD (n - 1) .null, rest)

/-- The truth of a condition, and the bound values it leaves. -/
@[simp] def Cond.eval : Cond K L → List Value → Truth × List Value
  | .eq a b, rest =>
    let x := a.eval t binds rest
    let y := b.eval t binds x.2
    (x.1.eq y.1, y.2)
  | .cmp o a b, rest =>
    let x := a.eval t binds rest
    let y := b.eval t binds x.2
    (x.1.cmp o y.1, y.2)
  | .isNotNull a, rest =>
    let x := a.eval t binds rest
    (some (decide (x.1 ≠ .null)), x.2)
  | .truth a, rest =>
    let x := a.eval t binds rest
    (x.1.truth, x.2)
  | .inNext a n, rest =>
    let x := a.eval t binds rest
    (Truth.any ((x.2.take n).map x.1.eq), x.2.drop n)
  | .eqAny a b, rest =>
    let x := a.eval t binds rest
    let y := b.eval t binds x.2
    (x.1.eqAny y.1, y.2)
  | .jsonEach l a, rest =>
    let x := a.eval t binds rest
    (some (decide (Truth.any (((t.array l).getD []).map fun s => (Value.text s).eq x.1) = some true)),
      x.2)
  | .jsonContains l a, rest =>
    let x := a.eval t binds rest
    (x.1.containedIn (t.array l), x.2)
  | .and c d, rest =>
    let x := c.eval rest
    let y := d.eval x.2
    (x.1.and y.1, y.2)
  | .or c d, rest =>
    let x := c.eval rest
    let y := d.eval x.2
    (x.1.or y.1, y.2)

/-- A row that `WHERE` keeps: the condition is true, neither false nor unknown. -/
def Cond.holds (c : Cond K L) : Bool := decide ((c.eval t binds binds).1 = some true)

/-! ## What a condition says -/

/-- If the next bound values are `vs`, the term takes exactly these and its value is `v`. -/
def Term.Gives (a : Term K) (vs : List Value) (v : Value) : Prop :=
  ∀ rest, a.eval t binds (vs ++ rest) = (v, rest)

/-- If the next bound values are `vs`, the condition takes exactly these and is true exactly if `p`. -/
def Cond.Means (c : Cond K L) (vs : List Value) (p : Prop) : Prop :=
  ∀ rest, (c.eval t binds (vs ++ rest)).2 = rest ∧
    ((c.eval t binds (vs ++ rest)).1 = some true ↔ p)

section Rules

variable {t binds}

theorem Term.gives_col (k : K) : (Term.col k).Gives t binds [] (t.col k) := fun _ => rfl

theorem Term.gives_of_col {k : K} {v : Value} (h : t.col k = v) : (Term.col k).Gives t binds [] v := by
  rw [← h]
  exact Term.gives_col k

theorem Term.gives_lit (v : Value) : (Term.lit v).Gives t binds [] v := fun _ => rfl

theorem Term.gives_next (v : Value) : (Term.next : Term K).Gives t binds [v] v := fun _ => rfl

theorem Term.gives_nth {n : ℕ} {v : Value} (h : binds.getD (n - 1) .null = v) :
    (Term.nth n : Term K).Gives t binds [] v := by
  intro rest
  rw [← h]
  rfl

namespace Cond

variable {a b : Term K} {c d : Cond K L} {vs ws : List Value} {x y : Value} {p q : Prop}

theorem means_eq (ha : a.Gives t binds vs x) (hb : b.Gives t binds ws y) :
    (eq a b : Cond K L).Means t binds (vs ++ ws) (x = y ∧ x ≠ .null) := by
  intro rest
  simp only [eval, List.append_assoc, ha (ws ++ rest), hb rest, Value.eq_eq_true, and_self]

theorem means_cmp (o : Cmp) (ha : a.Gives t binds vs x) (hb : b.Gives t binds ws y) :
    (cmp o a b : Cond K L).Means t binds (vs ++ ws) (x.cmp o y = some true) := by
  intro rest
  simp only [eval, List.append_assoc, ha (ws ++ rest), hb rest, and_self]

theorem means_isNotNull (ha : a.Gives t binds vs x) :
    (isNotNull a : Cond K L).Means t binds vs (x ≠ .null) := by
  intro rest
  simp [eval, ha rest]

theorem means_truth (ha : a.Gives t binds vs x) :
    (truth a : Cond K L).Means t binds vs (x = .bool true) := by
  intro rest
  simp only [eval, ha rest, true_and]
  cases x <;> simp [Value.truth]

theorem means_inNext (ha : a.Gives t binds [] x) (ws : List Value) :
    (inNext a ws.length : Cond K L).Means t binds ws (x ∈ ws ∧ x ≠ .null) := by
  intro rest
  have hx := ha (ws ++ rest)
  rw [List.nil_append] at hx
  simp only [eval, hx, List.drop_left, List.take_left, Truth.any_eq_true, List.mem_map,
    Value.eq_eq_true, true_and]
  constructor
  · rintro ⟨w, hw, rfl, hnull⟩
    exact ⟨hw, hnull⟩
  · rintro ⟨hw, hnull⟩
    exact ⟨x, hw, rfl, hnull⟩

theorem means_eqAny {xs : List String} (ha : a.Gives t binds vs x) (hb : b.Gives t binds ws (.array xs)) :
    (eqAny a b : Cond K L).Means t binds (vs ++ ws) (∃ s ∈ xs, x = .text s) := by
  intro rest
  simp only [eval, List.append_assoc, ha (ws ++ rest), hb rest, true_and, Value.eqAny,
    Truth.any_eq_true, List.mem_map, Value.eq_eq_true]
  constructor
  · rintro ⟨s, hs, rfl, -⟩
    exact ⟨s, hs, rfl⟩
  · rintro ⟨s, hs, rfl⟩
    exact ⟨s, hs, rfl, by simp⟩

theorem means_jsonEach (l : L) (ha : a.Gives t binds vs x) :
    (jsonEach l a : Cond K L).Means t binds vs (∃ s ∈ (t.array l).getD [], x = .text s) := by
  intro rest
  simp only [eval, ha rest, true_and, Option.some.injEq, decide_eq_true_eq, Truth.any_eq_true,
    List.mem_map, Value.eq_eq_true]
  constructor
  · rintro ⟨s, hs, rfl, -⟩
    exact ⟨s, hs, rfl⟩
  · rintro ⟨s, hs, rfl⟩
    exact ⟨s, hs, rfl, by simp⟩

theorem means_jsonContains (l : L) (ha : a.Gives t binds vs x) :
    (jsonContains l a : Cond K L).Means t binds vs (∃ s ∈ (t.array l).getD [], x = .text s) := by
  intro rest
  simp only [eval, ha rest, true_and]
  cases x <;> cases t.array l <;> simp [Value.containedIn]

theorem Means.and (hc : c.Means t binds vs p) (hd : d.Means t binds ws q) :
    (Cond.and c d).Means t binds (vs ++ ws) (p ∧ q) := by
  intro rest
  obtain ⟨hrest, hp⟩ := hc (ws ++ rest)
  simp only [eval, List.append_assoc, hrest, Truth.and_eq_true, hp, (hd rest).2, (hd rest).1, and_self]

theorem Means.or (hc : c.Means t binds vs p) (hd : d.Means t binds ws q) :
    (Cond.or c d).Means t binds (vs ++ ws) (p ∨ q) := by
  intro rest
  obtain ⟨hrest, hp⟩ := hc (ws ++ rest)
  simp only [eval, List.append_assoc, hrest, Truth.or_eq_true, hp, (hd rest).2, (hd rest).1, true_and]

theorem Means.congr (hc : c.Means t binds vs p) (hpq : p ↔ q) : c.Means t binds vs q :=
  fun rest => ⟨(hc rest).1, (hc rest).2.trans hpq⟩

theorem Means.holds_iff (h : c.Means t binds vs p) (hvs : vs = binds ∨ vs = []) :
    c.holds t binds = true ↔ p := by
  rw [holds, decide_eq_true_eq]
  rcases hvs with rfl | rfl
  · have := (h []).2
    rwa [List.append_nil] at this
  · exact (h binds).2

end Cond

end Rules

/-! ## Assembling a condition -/

/-- The placeholders that a builder writes: `?`, or `$n` with the number of the value. -/
inductive Placeholder
  | question
  | dollar
  deriving DecidableEq

/-- The placeholder of the value bound next, after `n` others. -/
def Placeholder.term : Placeholder → ℕ → Term K
  | .question, _ => .next
  | .dollar, n => .nth (n + 1)

/-- The bound values that the placeholders take in the order of the text. -/
def Placeholder.taken : Placeholder → List Value → List Value
  | .question, vs => vs
  | .dollar, _ => []

/-- A piece of a statement: after the values bound so far, its condition and the values bound then. -/
abbrev Build (K L : Type) := List Value → Cond K L × List Value

namespace Build

def text (c : Cond K L) : Build K L := fun bound => (c, bound)

/-- `k > v`, `k >= v`, `k < v`. -/
def cmp (d : Placeholder) (o : Cmp) (k : K) (v : Value) : Build K L :=
  fun bound => (.cmp o (.col k) (d.term bound.length), bound ++ [v])

/-- `k IN (?, …, ?)`. -/
def isIn (k : K) (vs : List Value) : Build K L :=
  fun bound => (.inNext (.col k) vs.length, bound ++ vs)

/-- `k = ANY($n)`. -/
def eqAny (k : K) (xs : List String) : Build K L :=
  fun bound => (.eqAny (.col k) (Placeholder.dollar.term bound.length), bound ++ [.array xs])

def and (m n : Build K L) : Build K L :=
  fun bound => (.and (m bound).1 (n (m bound).2).1, (n (m bound).2).2)

def or (m n : Build K L) : Build K L :=
  fun bound => (.or (m bound).1 (n (m bound).2).1, (n (m bound).2).2)

/-- `m OR … OR …`. -/
def anyOf (m : Build K L) (ms : List (Build K L)) : Build K L := ms.foldl or m

/-- The rows that the finished condition keeps. -/
def keeps (m : Build K L) (t : Tuple K L) : Bool := (m []).1.holds t (m []).2

/-- Wherever the piece stands in a statement, its condition is true exactly if `p`. -/
def Means (d : Placeholder) (t : Tuple K L) (m : Build K L) (p : Prop) : Prop :=
  ∀ bound, ∃ new, (m bound).2 = bound ++ new ∧
    ∀ later, (m bound).1.Means t (bound ++ new ++ later) (d.taken new) p

variable {d : Placeholder} {t : Tuple K L} {m n : Build K L} {p q : Prop}

theorem Means.congr (h : m.Means d t p) (hpq : p ↔ q) : m.Means d t q := by
  rwa [← propext hpq]

theorem taken_append (vs ws : List Value) : d.taken (vs ++ ws) = d.taken vs ++ d.taken ws := by
  cases d <;> rfl

theorem gives_placeholder (bound later : List Value) (v : Value) :
    (d.term bound.length : Term K).Gives t (bound ++ [v] ++ later) (d.taken [v]) v := by
  cases d with
  | question => exact Term.gives_next v
  | dollar => exact Term.gives_nth (by simp)

theorem means_text {c : Cond K L} (h : ∀ binds, c.Means t binds [] p) : (text c).Means d t p := by
  intro bound
  refine ⟨[], by simp [text], fun later => ?_⟩
  cases d <;> exact h _

theorem means_cmp (o : Cmp) {k : K} {x y : Value} (h : t.col k = x) :
    (cmp d o k y : Build K L).Means d t (x.cmp o y = some true) := by
  intro bound
  refine ⟨[y], rfl, fun later => ?_⟩
  exact Cond.means_cmp o (Term.gives_of_col h) (gives_placeholder bound later y)

theorem means_cmp_int {o : Cmp} {k : K} {a b : ℤ} (h : t.col k = .int a) :
    (cmp d o k (.int b) : Build K L).Means d t (o.test a b = true) :=
  (means_cmp o h).congr Option.some_inj

theorem means_cmp_text {o : Cmp} {k : K} {a b : String} (h : t.col k = .text a) :
    (cmp d o k (.text b) : Build K L).Means d t (o.test a b = true) :=
  (means_cmp o h).congr Option.some_inj

theorem means_isIn {k : K} {s : String} (h : t.col k = .text s) (xs : List String) :
    (isIn k (xs.map .text) : Build K L).Means .question t (s ∈ xs) := by
  intro bound
  refine ⟨xs.map .text, rfl, fun later => ?_⟩
  exact (Cond.means_inNext (Term.gives_of_col h) (xs.map .text)).congr (by simp)

theorem means_eqAny {k : K} {s : String} (h : t.col k = .text s) (xs : List String) :
    (eqAny k xs : Build K L).Means .dollar t (s ∈ xs) := by
  intro bound
  refine ⟨[.array xs], rfl, fun later => ?_⟩
  exact (Cond.means_eqAny (Term.gives_of_col h)
    (gives_placeholder (d := .dollar) bound later (.array xs))).congr (by simp)

theorem Means.and (hm : m.Means d t p) (hn : n.Means d t q) : (m.and n).Means d t (p ∧ q) := by
  intro bound
  obtain ⟨vs, hvs, hp⟩ := hm bound
  obtain ⟨ws, hws, hq⟩ := hn (m bound).2
  refine ⟨vs ++ ws, by rw [Build.and, hws, hvs, List.append_assoc], fun later => ?_⟩
  rw [taken_append]
  refine Cond.Means.and ?_ ?_
  · simpa using hp (ws ++ later)
  · simpa [hvs] using hq later

theorem Means.or (hm : m.Means d t p) (hn : n.Means d t q) : (m.or n).Means d t (p ∨ q) := by
  intro bound
  obtain ⟨vs, hvs, hp⟩ := hm bound
  obtain ⟨ws, hws, hq⟩ := hn (m bound).2
  refine ⟨vs ++ ws, by rw [Build.or, hws, hvs, List.append_assoc], fun later => ?_⟩
  rw [taken_append]
  refine Cond.Means.or ?_ ?_
  · simpa using hp (ws ++ later)
  · simpa [hvs] using hq later

theorem means_anyOf {ι : Type} {piece : ι → Build K L} {arm : ι → Prop} (i : ι) (is : List ι)
    (h : ∀ j ∈ i :: is, (piece j).Means d t (arm j)) :
    (anyOf (piece i) (is.map piece)).Means d t (∃ j ∈ i :: is, arm j) := by
  have hfold : ∀ (m : Build K L) (p : Prop), m.Means d t p →
      (∀ j ∈ is, (piece j).Means d t (arm j)) →
      (anyOf m (is.map piece)).Means d t (p ∨ ∃ j ∈ is, arm j) := by
    clear h
    induction is with
    | nil => exact fun m p hm _ => hm.congr (by simp)
    | cons j is ih =>
      intro m p hm hall
      have hj := hm.or (hall j List.mem_cons_self)
      refine (ih _ _ hj fun k hk => hall k (List.mem_cons_of_mem j hk)).congr ?_
      simp [or_assoc]
  refine (hfold _ _ (h i List.mem_cons_self) fun j hj => h j (List.mem_cons_of_mem i hj)).congr ?_
  simp

/-- **What a finished condition keeps.** -/
theorem Means.keeps_iff (h : m.Means d t p) : m.keeps t = true ↔ p := by
  obtain ⟨new, hnew, hmeans⟩ := h []
  rw [keeps, hnew]
  have := hmeans []
  rw [List.append_nil] at this
  refine this.holds_iff ?_
  cases d with
  | question => exact .inl rfl
  | dollar => exact .inr rfl

end Build

end Lib.Sql
