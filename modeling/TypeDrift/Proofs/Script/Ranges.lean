import TypeDrift.Proofs.Expr.Ranges
import TypeDrift.Proofs.Script.Append

/-! # The ranges of a script

What is known of the ranges of expressions in a row of lexemes is said here of the tokens of a script
(`Script.nodes_placed`).  The ranges of the parts of an expression follow one another inside its own,
at any depth, and the expressions of a script follow one another in the same way; what a range holds
besides its parts is never empty.
-/
namespace TypeDrift

theorem Kind.isTrivia_eq_false_iff {kind : Kind} :
    kind.isTrivia = false ↔ kind ≠ .newline ∧ kind ≠ .endOfInput := by
  cases kind <;> simp [Kind.isTrivia]

namespace Script

/-- The row that a script was read from. -/
def lexemes (script : Script) : List Lexeme := script.tokens.toList.map Token.toLexeme

/-- How an expression stands on the tokens of a script. -/
structure Placed (script : Script) (e : Expr) : Prop where
  nonempty : e.range.start < e.range.stop
  stop_le : e.range.stop ≤ script.tokens.size
  /-- It begins and ends with a token that is written out, and stands from the one to the other. -/
  ends : ∃ first last, script.tokens[e.range.start]? = some first ∧
    script.tokens[e.range.stop - 1]? = some last ∧ first.isTrivia = false ∧
    last.isTrivia = false ∧ script.span e = ⟨first.span.start, last.span.stop⟩
  parts_inside : ∀ child ∈ e.children,
    e.range.start ≤ child.range.start ∧ child.range.stop ≤ e.range.stop
  parts_ordered : e.children.Pairwise fun a b => a.range.stop ≤ b.range.start
  /-- A token that is written out belongs to the expression and to none of its parts. -/
  own : ∃ index token, script.tokens[index]? = some token ∧ token.isTrivia = false ∧
    e.range.contains index = true ∧ ∀ child ∈ e.children, child.range.contains index = false

variable {source : String} {script : Script}

theorem getElem?_lexemes (script : Script) (index : Nat) :
    script.lexemes[index]? = script.tokens[index]?.map Token.toLexeme := by
  rw [lexemes, List.getElem?_map, Array.getElem?_toList]

/-- What is written out in the row is a token of the script. -/
theorem exists_token_of_writtenAt {index : Nat} (h : WrittenAt script.lexemes index) :
    ∃ token, script.tokens[index]? = some token ∧ token.isTrivia = false ∧
      spanAt script.tokens index = token.span := by
  obtain ⟨lexeme, hmem, htrivia⟩ := h
  rw [getElem?_lexemes] at hmem
  obtain ⟨token, htoken, rfl⟩ := Option.map_eq_some_iff.mp hmem
  exact ⟨token, htoken, htrivia, spanAt_eq_span htoken⟩

theorem laid_of_read (h : read source = .ok script) :
    Expr.Laid script.lexemes 0 (script.tokens.size - 1) script.expressions ∧
      ∀ index < script.tokens.size - 1, Expr.Covered script.lexemes script.expressions index := by
  obtain ⟨row, -, htokens, hrow, hread⟩ := exists_row_of_read h
  have hlaid := Expr.laid_readAll hrow hread
  have hlexemes : script.lexemes = row.map Token.toLexeme ++ [.endOfInput] := by
    rw [lexemes, htokens, List.map_append]
    rfl
  have hsize : script.tokens.size - 1 = (row.map Token.toLexeme).length := by simp [htokens]
  rwa [hlexemes, hsize]

/-- Every expression of a script is laid out in its row. -/
theorem laidOut_of_read (h : read source = .ok script) :
    ∀ e ∈ script.nodes, e.LaidOut script.lexemes :=
  List.forall_mem_flatMap.mpr (laid_of_read h).1.tiled

theorem placed_of_laidOut {e : Expr} (hlaid : e.LaidOut script.lexemes) : script.Placed e := by
  obtain ⟨first, hfirst, hfirst', hstart⟩ := exists_token_of_writtenAt hlaid.first
  obtain ⟨last, hlast, hlast', hstop⟩ := exists_token_of_writtenAt hlaid.last
  obtain ⟨index, hwritten, hcontains, hown⟩ := hlaid.own
  obtain ⟨token, htoken, htoken', -⟩ := exists_token_of_writtenAt hwritten
  have hnonempty := hlaid.nonempty
  refine ⟨hnonempty, ?_, ⟨first, last, hfirst, hlast, hfirst', hlast', ?_⟩, hlaid.inside,
    hlaid.ordered, index, token, htoken, htoken', hcontains, hown⟩
  · obtain ⟨hlt, -⟩ := Array.getElem?_eq_some_iff.mp hlast
    omega
  · rw [span, spanOf, hstart, hstop]

/-- What is written out between the expressions of a script is a semicolon. -/
theorem kind_of_outside (h : read source = .ok script) {index : Nat} {token : Token}
    (htoken : script.tokens[index]? = some token) (hnewline : token.kind ≠ .newline)
    (hend : token.kind ≠ .endOfInput)
    (houtside : ∀ e ∈ script.expressions, e.range.contains index = false) :
    token.kind = .semicolon := by
  obtain ⟨-, hcovered⟩ := laid_of_read h
  obtain ⟨row, -, htokens, -⟩ := exists_row_of_read h
  have hsize : script.tokens.size = row.length + 1 := by simp [htokens]
  obtain ⟨hlt, hget⟩ := Array.getElem?_eq_some_iff.mp htoken
  have hbefore : index < script.tokens.size - 1 := by
    -- Only the last token is the end of input.
    by_contra hlast
    have hindex : index = row.length := by omega
    subst hindex
    rw [htokens] at htoken
    simp only [List.getElem?_toArray, List.getElem?_concat_length, Option.some.injEq] at htoken
    exact hend (htoken ▸ rfl)
  rcases hcovered index hbefore with ⟨e, he, hcontains⟩ | ⟨lexeme, hmem, hkind⟩
  · exact absurd (houtside e he) (by simp [hcontains])
  · rw [getElem?_lexemes, htoken] at hmem
    cases hmem
    exact hkind.resolve_left hnewline

/-- **Every expression is placed on tokens of its own**, at any depth.  The expressions that a script
consists of follow one another, and what stands between them is a line break or a semicolon. -/
theorem nodes_placed (h : read source = .ok script) :
    (∀ e ∈ script.nodes, script.Placed e) ∧
      script.expressions.Pairwise (fun a b => a.range.stop ≤ b.range.start) ∧
      ∀ index token, script.tokens[index]? = some token →
        token.kind ≠ .newline → token.kind ≠ .endOfInput →
        (∀ e ∈ script.expressions, e.range.contains index = false) → token.kind = .semicolon := by
  refine ⟨fun e he => placed_of_laidOut (laidOut_of_read h e he), (laid_of_read h).1.ordered, ?_⟩
  intro index token htoken hnewline hend houtside
  exact kind_of_outside h htoken hnewline hend houtside

/-- A branch on another line, an empty argument, and two expressions on one line. -/
theorem nodes_placed_lines :
    ∃ script, read "\nf <- function(x, y = 2) \x7b if (x) y\nelse -x[, 1]$z; g(\n) \x7d; ~ a::b  # end" =
        .ok script ∧
      ∀ e ∈ script.nodes, script.Placed e := by
  obtain ⟨script, hread⟩ := exists_read_of_isOk
    (show (read "\nf <- function(x, y = 2) \x7b if (x) y\nelse -x[, 1]$z; g(\n) \x7d; ~ a::b  # end").isOk =
      true by decide +kernel)
  exact ⟨script, hread, (nodes_placed hread).1⟩

end Script
end TypeDrift
