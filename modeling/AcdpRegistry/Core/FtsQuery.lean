/-
  The text `fts5_escape` makes of a query, read by FTS5.

  Each surviving token is quoted, so the text is the join of quoted strings that
  `Lib.Fts5` reads back; no operator, column filter or quote of a query is read as one.
  FTS5 reads a bound text up to its first NUL, which the quoting leaves as it is.
-/
import AcdpRegistry.Core.Search
import AcdpRegistry.Lib.Fts5

namespace AcdpRegistry

open Lib

section Escape

variable (api : SearchApi) (q : String)

def queryTokens : List String := (splitWhitespace q).filter fun t => !isPgEnglishStopword api t

/-- What a query asks for: its tokens, or the word that no document has. -/
def queryTerms : List String :=
  if queryTokens api q = [] then ["__acdp_empty_query__"] else queryTokens api q

/-- FTS5 reads the text as one quoted string for each term, in order, and as no expression but their
    implicit AND. -/
def ReadsAs (text : String) (terms : List String) : Prop :=
  ∃ tokens, Fts5.tokens text.toList = some tokens ∧
    tokens = terms.map (fun t => Fts5.Token.string true t.toList) ∧
    ∀ e, Fts5.Parses tokens e ↔ e = .list (terms.map fun t => .ofText t.toList)

theorem toList_fts5Escape :
    (fts5Escape api q).toList = Fts5.joined ((queryTerms api q).map String.toList) := by
  have hescape : fts5Escape api q =
      if queryTokens api q = [] then "\"__acdp_empty_query__\""
      else " ".intercalate ((queryTokens api q).map fun t => String.ofList (Fts5.quote t.toList)) := by
    simp only [fts5Escape, List.isEmpty_iff, List.map_eq_nil_iff]
    rfl
  rw [hescape, queryTerms]
  split_ifs
  · decide
  · rw [String.toList_intercalate, Fts5.joined, List.map_map, List.map_map]
    refine congrArg (List.intercalate [' ']) (List.map_congr_left fun t _ => ?_)
    simp

variable {api q}

theorem queryTerms_ne_nil : queryTerms api q ≠ [] := by
  unfold queryTerms
  split_ifs with h
  · simp
  · exact h

theorem nul_not_mem_queryTerms_iff :
    (∀ t ∈ queryTerms api q, Fts5.nul ∉ t.toList) ↔ ∀ t ∈ queryTokens api q, Fts5.nul ∉ t.toList := by
  unfold queryTerms
  split_ifs with h
  · simp only [List.mem_singleton, forall_eq, h, List.not_mem_nil, false_implies, implies_true, iff_true]
    decide
  · rfl

end Escape

/-- **Full-text queries are read as they are meant, up to a NUL.**  FTS5 reads the text of
    `fts5_escape` as the implicit AND of one string for each token that is no stopword, or as the
    sentinel, exactly if no such token has a U+0000; else the text is no expression. -/
theorem fts5_query_is_its_tokens (api : SearchApi) (q : String) :
    (ReadsAs (fts5Escape api q) (queryTerms api q) ↔ ∀ t ∈ queryTokens api q, Fts5.nul ∉ t.toList) ∧
    ((∃ t ∈ queryTokens api q, Fts5.nul ∈ t.toList) → Fts5.tokens (fts5Escape api q).toList = none) := by
  have htokens := Fts5.tokens_joined ((queryTerms api q).map String.toList)
  simp only [List.forall_mem_map, nul_not_mem_queryTerms_iff] at htokens
  rw [← toList_fts5Escape] at htokens
  refine ⟨⟨?_, fun hnul => ?_⟩, ?_⟩
  · rintro ⟨tokens, hread, -⟩
    by_contra hnul
    rw [htokens, if_neg hnul] at hread
    cases hread
  · rw [if_pos hnul] at htokens
    refine ⟨_, htokens, ?_, fun e => ?_⟩
    · rw [List.map_map]
      rfl
    · rw [Fts5.parses_literals_iff (by simpa using queryTerms_ne_nil), List.map_map]
      rfl
  · rintro ⟨t, ht, hnul⟩
    rw [htokens, if_neg fun hall => hall t ht hnul]

/-- The text of a query with a U+0000 ends inside a string. -/
theorem nul_breaks_query :
    let q := String.ofList ['x', Fts5.nul, 'y']
    queryTokens Sample.searchApi q = [q] ∧ Fts5.tokens (fts5Escape Sample.searchApi q).toList = none := by
  decide +kernel

/-- Quotes, an operator and a column filter. -/
theorem fts5_query_quotes_operators :
    queryTerms Sample.searchApi "title:x NEAR (y\"z)" = ["title:x", "NEAR", "(y\"z)"] ∧
      ReadsAs (fts5Escape Sample.searchApi "title:x NEAR (y\"z)") ["title:x", "NEAR", "(y\"z)"] := by
  have hterms : queryTerms Sample.searchApi "title:x NEAR (y\"z)" = ["title:x", "NEAR", "(y\"z)"] := by
    decide +kernel
  have hread := (fts5_query_is_its_tokens Sample.searchApi "title:x NEAR (y\"z)").1.2 (by decide +kernel)
  rw [hterms] at hread
  exact ⟨hterms, hread⟩

end AcdpRegistry
