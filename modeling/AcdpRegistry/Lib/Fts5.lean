/-
  Query expressions of SQLite's FTS5: their tokens and their grammar.

  The text is read up to its first NUL.  The lexer is a machine that reads one character at
  a time (`step`); a string is a quoted run in which a quote is doubled, or a bareword.  The
  grammar is one relation for each of its nonterminals, between the tokens that are read and
  what they stand for.

  A text that is a list of quoted strings with a space between them is read as these strings
  (`tokens_joined`), and its one expression is their implicit AND (`parses_literals_iff`).  Where a
  string has a NUL the text ends inside it, and there are no tokens.
-/
import Mathlib.Data.List.TakeWhile
import Mathlib.Tactic

namespace Lib.Fts5

/-! ## Tokens -/

inductive Token
  /-- A quoted string, unquoted, or a bareword. -/
  | string (quoted : Bool) (text : List Char)
  | and
  | or
  | not
  | lp
  | rp
  | lcp
  | rcp
  | colon
  | comma
  | plus
  | star
  | minus
  | caret
  deriving DecidableEq

def nul : Char := Char.ofNat 0

/-- What FTS5 reads of a bound text. -/
def cText (text : List Char) : List Char := text.takeWhile (· ≠ nul)

def isSpace (c : Char) : Bool := c = ' ' || c = '\t' || c = '\n' || c = '\r'

/-- ASCII letters and digits, `_`, the substitute character and all that is not ASCII. -/
def isBareword (c : Char) : Bool := c.isAlphanum || c = '_' || c.toNat = 0x1A || 0x80 ≤ c.toNat

def punctuation (c : Char) : Option Token :=
  if c = '(' then some .lp
  else if c = ')' then some .rp
  else if c = '\x7b' then some .lcp
  else if c = '\x7d' then some .rcp
  else if c = ':' then some .colon
  else if c = ',' then some .comma
  else if c = '+' then some .plus
  else if c = '*' then some .star
  else if c = '-' then some .minus
  else if c = '^' then some .caret
  else none

/-- A bareword is a string unless it is an operator. -/
def wordToken (word : List Char) : Token :=
  if word = ['O', 'R'] then .or
  else if word = ['N', 'O', 'T'] then .not
  else if word = ['A', 'N', 'D'] then .and
  else .string false word

/-! ## The lexer -/

/-- Where the lexer is, with what it has read of a string. -/
inductive Mode
  | between
  | quoted (read : List Char)
  /-- After a quote, which is the last of the string unless another one follows. -/
  | quote (read : List Char)
  | word (read : List Char)

/-- The first character of a token, or one between tokens. -/
def begin_ (c : Char) : Option (List Token × Mode) :=
  if isSpace c then some ([], .between)
  else if c = '"' then some ([], .quoted [])
  else match punctuation c with
    | some token => some ([token], .between)
    | none => if isBareword c then some ([], .word [c]) else none

/-- One character: the tokens that it ends, and where the lexer is then. -/
def step : Mode → Char → Option (List Token × Mode)
  | .between, c => begin_ c
  | .quoted read, c => some ([], if c = '"' then .quote read else .quoted (read ++ [c]))
  | .quote read, c =>
    if c = '"' then some ([], .quoted (read ++ [c]))
    else (begin_ c).map fun out => (.string true read :: out.1, out.2)
  | .word read, c =>
    if isBareword c then some ([], .word (read ++ [c]))
    else (begin_ c).map fun out => (wordToken read :: out.1, out.2)

/-- The end of the text; a string that is not closed is an error. -/
def finish : Mode → Option (List Token)
  | .between => some []
  | .quoted _ => none
  | .quote read => some [.string true read]
  | .word read => some [wordToken read]

def lex : Mode → List Char → Option (List Token)
  | mode, [] => finish mode
  | mode, c :: cs => (step mode c).bind fun out => (lex out.2 cs).map (out.1 ++ ·)

/-- The tokens of a text; `none` is a syntax error. -/
def tokens (text : List Char) : Option (List Token) := lex .between (cText text)

/-! ## The grammar -/

abbrev Phrase := List (List Char × Bool)

inductive Near
  | phrase (initial : Bool) (phrase : Phrase)
  | near (name : List Char) (phrases : List Phrase) (distance : Option (List Char))

structure ColSet where
  except : Bool
  columns : List (List Char)

structure CNear where
  columns : Option ColSet
  near : Near

/-- An expression; `list` is an implicit AND. -/
inductive Expr
  | list (sets : List CNear)
  | and (l r : Expr)
  | or (l r : Expr)
  | not (l r : Expr)
  | within (columns : ColSet) (e : Expr)

def starOpt (star : Bool) : List Token := if star then [.star] else []

inductive IsPhrase : List Token → Phrase → Prop
  | one (quoted : Bool) (s : List Char) (star : Bool) : IsPhrase (.string quoted s :: starOpt star) [(s, star)]
  | plus {xs : List Token} {p : Phrase} (hp : IsPhrase xs p) (quoted : Bool) (s : List Char) (star : Bool) :
      IsPhrase (xs ++ .plus :: .string quoted s :: starOpt star) (p ++ [(s, star)])

inductive IsPhrases : List Token → List Phrase → Prop
  | one {xs : List Token} {p : Phrase} (hp : IsPhrase xs p) : IsPhrases xs [p]
  | more {xs ys : List Token} {ps : List Phrase} {p : Phrase} (hps : IsPhrases xs ps) (hp : IsPhrase ys p) :
      IsPhrases (xs ++ ys) (ps ++ [p])

inductive IsDistance : List Token → Option (List Char) → Prop
  | none : IsDistance [] none
  | some (quoted : Bool) (s : List Char) : IsDistance [.comma, .string quoted s] (some s)

inductive IsNear : List Token → Near → Prop
  | phrase {xs : List Token} {p : Phrase} (hp : IsPhrase xs p) : IsNear xs (.phrase false p)
  | caret {xs : List Token} {p : Phrase} (hp : IsPhrase xs p) : IsNear (.caret :: xs) (.phrase true p)
  | near {xs ds : List Token} {ps : List Phrase} {d : Option (List Char)} (quoted : Bool) (s : List Char)
      (hps : IsPhrases xs ps) (hd : IsDistance ds d) :
      IsNear (.string quoted s :: .lp :: xs ++ ds ++ [.rp]) (.near s ps d)

inductive IsColumns : List Token → List (List Char) → Prop
  | one (quoted : Bool) (s : List Char) : IsColumns [.string quoted s] [s]
  | more {xs : List Token} {cs : List (List Char)} (hcs : IsColumns xs cs) (quoted : Bool) (s : List Char) :
      IsColumns (xs ++ [.string quoted s]) (cs ++ [s])

inductive IsColSet : List Token → ColSet → Prop
  | one (quoted : Bool) (s : List Char) : IsColSet [.string quoted s] ⟨false, [s]⟩
  | exceptOne (quoted : Bool) (s : List Char) : IsColSet [.minus, .string quoted s] ⟨true, [s]⟩
  | many {xs : List Token} {cs : List (List Char)} (hcs : IsColumns xs cs) :
      IsColSet (.lcp :: xs ++ [.rcp]) ⟨false, cs⟩
  | exceptMany {xs : List Token} {cs : List (List Char)} (hcs : IsColumns xs cs) :
      IsColSet (.minus :: .lcp :: xs ++ [.rcp]) ⟨true, cs⟩

inductive IsCNear : List Token → CNear → Prop
  | all {xs : List Token} {n : Near} (hn : IsNear xs n) : IsCNear xs ⟨none, n⟩
  | within {xs ys : List Token} {c : ColSet} {n : Near} (hc : IsColSet xs c) (hn : IsNear ys n) :
      IsCNear (xs ++ .colon :: ys) ⟨some c, n⟩

inductive IsExprList : List Token → List CNear → Prop
  | one {xs : List Token} {n : CNear} (hn : IsCNear xs n) : IsExprList xs [n]
  | more {xs ys : List Token} {ns : List CNear} {n : CNear} (hns : IsExprList xs ns) (hn : IsCNear ys n) :
      IsExprList (xs ++ ys) (ns ++ [n])

/-- The tokens are read as an expression; precedence, which cuts `and`, `or` and `not` where there
    are several, is left out. -/
inductive Parses : List Token → Expr → Prop
  | list {xs : List Token} {ns : List CNear} (hns : IsExprList xs ns) : Parses xs (.list ns)
  | and {xs ys : List Token} {l r : Expr} (hl : Parses xs l) (hr : Parses ys r) :
      Parses (xs ++ .and :: ys) (.and l r)
  | or {xs ys : List Token} {l r : Expr} (hl : Parses xs l) (hr : Parses ys r) :
      Parses (xs ++ .or :: ys) (.or l r)
  | not {xs ys : List Token} {l r : Expr} (hl : Parses xs l) (hr : Parses ys r) :
      Parses (xs ++ .not :: ys) (.not l r)
  | paren {xs : List Token} {e : Expr} (he : Parses xs e) : Parses (.lp :: xs ++ [.rp]) e
  | within {xs ys : List Token} {c : ColSet} {e : Expr} (hc : IsColSet xs c) (he : Parses ys e) :
      Parses (xs ++ .colon :: .lp :: ys ++ [.rp]) (.within c e)

/-! ## Quoted strings -/

def double (s : List Char) : List Char := s.flatMap fun c => if c = '"' then ['"', '"'] else [c]

def quote (s : List Char) : List Char := '"' :: double s ++ ['"']

def joined (texts : List (List Char)) : List Char := [' '].intercalate (texts.map quote)

abbrev literal (s : List Char) : Token := .string true s

theorem lex_of_step {mode : Mode} {c : Char} (next : Mode) (h : step mode c = some ([], next))
    (cs : List Char) :
    lex mode (c :: cs) = lex next cs := by
  simp [lex, h]

theorem double_cons (c : Char) (s : List Char) :
    double (c :: s) = if c = '"' then '"' :: '"' :: double s else c :: double s := by
  by_cases hc : c = '"' <;> simp [double, hc]

theorem lex_double (read s rest : List Char) :
    lex (.quoted read) (double s ++ rest) = lex (.quoted (read ++ s)) rest := by
  induction s generalizing read with
  | nil => simp [double]
  | cons c s ih =>
    have hread : read ++ c :: s = read ++ [c] ++ s := by simp
    rw [hread, double_cons]
    by_cases hc : c = '"'
    · subst hc
      rw [if_pos rfl, List.cons_append, List.cons_append, lex_of_step (.quote read) (by simp [step]),
        lex_of_step (.quoted (read ++ ['"'])) (by simp [step]), ih]
    · rw [if_neg hc, List.cons_append, lex_of_step (.quoted (read ++ [c])) (by simp [step, hc]), ih]

theorem lex_open (cs : List Char) : lex .between ('"' :: cs) = lex (.quoted []) cs :=
  lex_of_step (.quoted []) (by simp [step, begin_, isSpace]) cs

theorem lex_quote (s rest : List Char) : lex .between (quote s ++ rest) = lex (.quote s) rest := by
  have hquote : quote s ++ rest = '"' :: (double s ++ '"' :: rest) := by simp [quote]
  rw [hquote, lex_open, lex_double, List.nil_append]
  exact lex_of_step (.quote s) (by simp [step]) rest

theorem lex_quote_space (s rest : List Char) :
    lex (.quote s) (' ' :: rest) = (lex .between rest).map (literal s :: ·) := by
  simp [lex, step, begin_, isSpace]

/-! ### Up to a NUL -/

theorem cText_cons_of_ne {c : Char} (h : c ≠ nul) (cs : List Char) : cText (c :: cs) = c :: cText cs := by
  simp [cText, h]

theorem cText_double_append (s rest : List Char) :
    cText (double s ++ rest) = if nul ∈ s then double (cText s) else double s ++ cText rest := by
  have hquote : '"' ≠ nul := by decide
  induction s with
  | nil => simp [double]
  | cons c s ih =>
    by_cases hnul : c = nul
    · subst hnul
      rw [double_cons, if_neg hquote.symm, if_pos (by simp)]
      simp [cText, double]
    · have hmem : nul ∈ c :: s ↔ nul ∈ s := by simp [Ne.symm hnul]
      rw [cText_cons_of_ne hnul, double_cons, double_cons]
      by_cases hc : c = '"'
      · simp only [hmem, if_pos hc, List.cons_append, cText_cons_of_ne hquote, ih]
        split_ifs <;> rfl
      · simp only [hmem, if_neg hc, List.cons_append, cText_cons_of_ne hnul, ih]
        split_ifs <;> rfl

theorem cText_quote_append (s rest : List Char) :
    cText (quote s ++ rest) = if nul ∈ s then '"' :: double (cText s) else quote s ++ cText rest := by
  have hquote : '"' ≠ nul := by decide
  have happend : quote s ++ rest = '"' :: (double s ++ '"' :: rest) := by simp [quote]
  rw [happend, cText_cons_of_ne hquote, cText_double_append, cText_cons_of_ne hquote]
  split_ifs
  · rfl
  · simp [quote]

theorem tokens_quote_of_nul {s : List Char} (h : nul ∈ s) (rest : List Char) :
    tokens (quote s ++ rest) = none := by
  have hend := lex_double [] (cText s) []
  rw [List.append_nil] at hend
  rw [tokens, cText_quote_append, if_pos h, lex_open, hend]
  rfl

def after (texts : List (List Char)) : List Char := texts.flatMap fun s => ' ' :: quote s

theorem joined_cons (s : List Char) (texts : List (List Char)) :
    joined (s :: texts) = quote s ++ after texts := by
  induction texts generalizing s with
  | nil => simp [joined, after]
  | cons s' texts ih =>
    have hnext : joined (s :: s' :: texts) = quote s ++ (' ' :: joined (s' :: texts)) := by simp [joined]
    rw [hnext, ih]
    simp [after]

theorem tokens_quote_append {s : List Char} (h : nul ∉ s) (rest : List Char) :
    tokens (quote s ++ rest) = lex (.quote s) (cText rest) := by
  rw [tokens, cText_quote_append, if_neg h, lex_quote]

theorem lex_after (s : List Char) (texts : List (List Char)) :
    lex (.quote s) (cText (after texts)) =
      if ∀ t ∈ texts, nul ∉ t then some (literal s :: texts.map literal) else none := by
  induction texts generalizing s with
  | nil => rfl
  | cons t texts ih =>
    have hafter : after (t :: texts) = ' ' :: (quote t ++ after texts) := rfl
    rw [hafter, cText_cons_of_ne (by decide), lex_quote_space, ← tokens]
    by_cases ht : nul ∈ t
    · rw [tokens_quote_of_nul ht, if_neg fun hall => hall t (by simp) ht]
      rfl
    · have hall : (∀ u ∈ t :: texts, nul ∉ u) ↔ ∀ u ∈ texts, nul ∉ u := by simp [ht]
      rw [tokens_quote_append ht, ih]
      simp only [hall]
      split_ifs <;> rfl

/-- **A list of quoted strings is read as these strings**, if none has a NUL; else there is an error. -/
theorem tokens_joined (texts : List (List Char)) :
    tokens (joined texts) = if ∀ s ∈ texts, nul ∉ s then some (texts.map literal) else none := by
  cases texts with
  | nil => rfl
  | cons s texts =>
    rw [joined_cons]
    by_cases hs : nul ∈ s
    · rw [tokens_quote_of_nul hs, if_neg fun hall => hall s (by simp) hs]
    · have hall : (∀ t ∈ s :: texts, nul ∉ t) ↔ ∀ t ∈ texts, nul ∉ t := by simp [hs]
      rw [tokens_quote_append hs, lex_after]
      simp only [hall, List.map_cons]

/-! ## The expression of a list of strings -/

def Token.IsString (t : Token) : Prop := ∃ quoted s, t = .string quoted s

def Token.text : Token → List Char
  | .string _ s => s
  | _ => []

def CNear.ofText (s : List Char) : CNear := ⟨none, .phrase false [(s, false)]⟩

theorem not_isString_of_mem {xs : List Token} (h : ∀ t ∈ xs, t.IsString) {t : Token} (ht : t ∈ xs)
    (hne : ∀ quoted s, t ≠ .string quoted s) : False := by
  obtain ⟨quoted, s, rfl⟩ := h t ht
  exact hne quoted s rfl

section Strings

variable {xs : List Token} (hxs : ∀ t ∈ xs, t.IsString)

include hxs

theorem IsPhrase.of_strings {p : Phrase} (h : IsPhrase xs p) :
    ∃ quoted s, xs = [.string quoted s] ∧ p = [(s, false)] := by
  cases h with
  | one quoted s star =>
    cases star with
    | false => exact ⟨quoted, s, rfl, rfl⟩
    | true => exact (not_isString_of_mem hxs (t := .star) (by simp [starOpt]) (by simp)).elim
  | plus hp quoted s star => exact (not_isString_of_mem hxs (t := .plus) (by simp) (by simp)).elim

theorem IsNear.of_strings {n : Near} (h : IsNear xs n) :
    ∃ quoted s, xs = [.string quoted s] ∧ n = .phrase false [(s, false)] := by
  cases h with
  | phrase hp =>
    obtain ⟨quoted, s, hx, rfl⟩ := hp.of_strings hxs
    exact ⟨quoted, s, hx, rfl⟩
  | caret hp => exact (not_isString_of_mem hxs (t := .caret) (by simp) (by simp)).elim
  | near quoted s hps hd => exact (not_isString_of_mem hxs (t := .lp) (by simp) (by simp)).elim

theorem IsCNear.of_strings {n : CNear} (h : IsCNear xs n) :
    ∃ quoted s, xs = [.string quoted s] ∧ n = .ofText s := by
  cases h with
  | all hn =>
    obtain ⟨quoted, s, hx, rfl⟩ := hn.of_strings hxs
    exact ⟨quoted, s, hx, rfl⟩
  | within hc hn => exact (not_isString_of_mem hxs (t := .colon) (by simp) (by simp)).elim

theorem IsExprList.of_strings {ns : List CNear} (h : IsExprList xs ns) :
    ns = xs.map fun t => .ofText t.text := by
  induction h with
  | one hn =>
    obtain ⟨quoted, s, rfl, rfl⟩ := hn.of_strings hxs
    rfl
  | more hns hn ih =>
    obtain ⟨quoted, s, rfl, rfl⟩ := hn.of_strings fun t ht => hxs t (List.mem_append_right _ ht)
    rw [ih fun t ht => hxs t (List.mem_append_left _ ht)]
    simp [Token.text]

theorem Parses.of_strings {e : Expr} (h : Parses xs e) : e = .list (xs.map fun t => .ofText t.text) := by
  cases h with
  | list hns => rw [hns.of_strings hxs]
  | and hl hr => exact (not_isString_of_mem hxs (t := .and) (by simp) (by simp)).elim
  | or hl hr => exact (not_isString_of_mem hxs (t := .or) (by simp) (by simp)).elim
  | not hl hr => exact (not_isString_of_mem hxs (t := .not) (by simp) (by simp)).elim
  | paren he => exact (not_isString_of_mem hxs (t := .lp) (by simp) (by simp)).elim
  | within hc he => exact (not_isString_of_mem hxs (t := .colon) (by simp) (by simp)).elim

end Strings

theorem isExprList_literals (s : List Char) (texts : List (List Char)) :
    IsExprList ((s :: texts).map literal) ((s :: texts).map CNear.ofText) := by
  have hone : ∀ t, IsCNear [literal t] (.ofText t) := fun t => .all (.phrase (.one true t false))
  induction texts using List.reverseRecOn with
  | nil => exact .one (hone s)
  | append_singleton texts t ih =>
    have h := ih.more (hone t)
    simpa using h

/-- **The one expression of a list of strings is their implicit AND.** -/
theorem parses_literals_iff {texts : List (List Char)} (h : texts ≠ []) {e : Expr} :
    Parses (texts.map literal) e ↔ e = .list (texts.map CNear.ofText) := by
  constructor
  · intro he
    have hstrings : ∀ t ∈ texts.map literal, t.IsString := by
      simp [Token.IsString]
    rw [he.of_strings hstrings, List.map_map]
    rfl
  · rintro rfl
    obtain ⟨s, texts, rfl⟩ := List.exists_cons_of_ne_nil h
    exact .list (isExprList_literals s texts)

end Lib.Fts5
