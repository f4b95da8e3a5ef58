import TypeDrift.Proofs.Expr.Widened
import TypeDrift.Script.Basic

/-! # Line breaks inside brackets

Inside round and square brackets line breaks are insignificant: one more of them changes nothing but
the indices of the tokens behind it (`Script.ofTokens_insert_newline`).  There are two places where
that fails, and a script is no script any more.  A package and the colons behind it have to stand on
one line, and so have the two brackets that close `[[`, unless line breaks are insignificant around
them as well.
-/
namespace TypeDrift

/-- A token without a place. -/
def Token.bare (kind : Kind) (text : String) : Token := ⟨⟨kind, text⟩, ⟨.start, .start⟩⟩

namespace Script

/-- The brackets that are open behind some tokens. -/
def openBehind (tokens : List Token) : List OpenBracket :=
  OpenBracket.after [] (tokens.map Token.toLexeme)

/-- **Inside round and square brackets line breaks are insignificant.**  Where some tokens are a
script, they are the same one with a line break put in, but for the indices of the tokens behind it:
at every place inside of brackets whose innermost one is no brace, but for the places in front of
colons, and for those between the two brackets that close a `[[` around which they mean something. -/
theorem ofTokens_insert_newline {earlier later : List Token} {newline : Token} {script : Script}
    (hread : ofTokens (earlier ++ later) = .ok script) (hnewline : newline.kind = .newline)
    (hinside : OpenBracket.isInside (openBehind earlier) = true)
    (hcolons : ∀ token ∈ later.head?, token.kind ≠ .doubleColon ∧ token.kind ≠ .tripleColon)
    (hhalf : (openBehind earlier).head? = some .half →
      OpenBracket.ignoresNewlines (openBehind earlier).tail = true) :
    ofTokens (earlier ++ newline :: later) =
      .ok ⟨(earlier ++ newline :: later).toArray,
        script.expressions.map (Expr.renumber (.gap earlier.length))⟩ := by
  have hignores := OpenBracket.ignoresNewlines_of_isInside hinside hhalf
  have hcolons' : ∀ lexeme ∈ (later.map Token.toLexeme).head?,
      lexeme.kind ≠ .doubleColon ∧ lexeme.kind ≠ .tripleColon := by
    intro lexeme hlexeme
    rw [List.head?_map] at hlexeme
    obtain ⟨token, htoken, rfl⟩ := Option.map_eq_some_iff.mp hlexeme
    exact hcolons token htoken
  unfold ofTokens at hread
  split at hread
  · next es hes =>
    cases hread
    rw [List.map_append] at hes
    have hwidened := Expr.readAll_widened hnewline hignores hcolons' hes
    rw [List.length_map] at hwidened
    rw [ofTokens, List.map_append, List.map_cons, hwidened]
  · cases hread

/-- The second bracket of `]]` moved to the next line in `g(x[[1]])`, where parentheses are around
them. -/
theorem ofTokens_insert_newline_nested :
    ∃ earlier later script,
      earlier = [.bare .identifier "g", .bare .leftParen "(", .bare .identifier "x",
        .bare .doubleLeftBracket "[[", .bare .integer "1", .bare .rightBracket "]"] ∧
      later = [.bare .rightBracket "]", .bare .rightParen ")", .bare .endOfInput ""] ∧
      ofTokens (earlier ++ later) = .ok script ∧
      ofTokens (earlier ++ .bare .newline "\n" :: later) =
        .ok ⟨(earlier ++ .bare .newline "\n" :: later).toArray,
          script.expressions.map (Expr.renumber (.gap 6))⟩ := by
  let earlier : List Token := [.bare .identifier "g", .bare .leftParen "(", .bare .identifier "x",
    .bare .doubleLeftBracket "[[", .bare .integer "1", .bare .rightBracket "]"]
  let later : List Token :=
    [.bare .rightBracket "]", .bare .rightParen ")", .bare .endOfInput ""]
  have hok : (ofTokens (earlier ++ later)).isOk = true := by decide +kernel
  cases hread : ofTokens (earlier ++ later) with
  | error fault =>
    rw [hread] at hok
    cases hok
  | ok script =>
    exact ⟨earlier, later, script, rfl, rfl, hread,
      ofTokens_insert_newline hread rfl (by decide) (by decide) (by decide)⟩

/-- Some tokens are a script, and they are none with a line break put in inside of brackets. -/
structure BrokenByNewline (earlier later : List Token) : Prop where
  inside : OpenBracket.isInside (openBehind earlier) = true
  reads : (ofTokens (earlier ++ later)).isOk = true
  fails : (ofTokens (earlier ++ .bare .newline "\n" :: later)).isOk = false

/-- The two places where a line break does matter: in front of the colons of `(a::b)`, which the
reader looks for in the very next token, and between the two brackets that close `x[[1]]`, of which
the first has closed the brackets for the reader already. -/
theorem newline_matters_inside :
    BrokenByNewline [.bare .leftParen "(", .bare .identifier "a"]
      [.bare .doubleColon "::", .bare .identifier "b", .bare .rightParen ")",
        .bare .endOfInput ""] ∧
    BrokenByNewline [.bare .identifier "x", .bare .doubleLeftBracket "[[", .bare .integer "1",
      .bare .rightBracket "]"] [.bare .rightBracket "]", .bare .endOfInput ""] :=
  ⟨⟨by decide, by decide +kernel, by decide +kernel⟩,
    ⟨by decide, by decide +kernel, by decide +kernel⟩⟩

end Script
end TypeDrift
