import TypeDrift.Expr.Parse
import TypeDrift.Expr.Tree
import TypeDrift.Token.Scan

/-!
Scripts. A script is a text that has been read: its tokens and its expressions, which refer to the
tokens by index. Places come in here and nowhere earlier. Whether a text can be read, and as what,
is decided on its lexemes; a refused lexeme becomes a fault at the place of its token.
-/
namespace TypeDrift

/-- A text that has been read. -/
structure Script where
  tokens : Array Token
  expressions : List Expr
deriving Repr

namespace Script

/-- The place of a token, by its index. -/
def spanAt (tokens : Array Token) (index : Nat) : Span :=
  (tokens[index]?.map Token.span).getD ⟨.start, .start⟩

/-- The fault that a refused lexeme is. -/
def faultOf (tokens : Array Token) (refusal : Refusal) : Fault :=
  ⟨.unexpected refusal.found, (spanAt tokens refusal.index).start⟩

/-- The script of some tokens. -/
def ofTokens (tokens : List Token) : Except Fault Script :=
  match Expr.readAll (tokens.map Token.toLexeme) with
  | .ok expressions => .ok ⟨tokens.toArray, expressions⟩
  | .error refusal => .error (faultOf tokens.toArray refusal)

/-- The script that a text is, or why it is none. -/
def read (source : String) : Except Fault Script :=
  match Token.scan source with
  | .ok tokens => ofTokens tokens
  | .error fault => .error fault

theorem ofTokens_eq_ok_iff {tokens : List Token} {script : Script} :
    ofTokens tokens = .ok script ↔ script.tokens = tokens.toArray ∧
      Expr.readAll (tokens.map Token.toLexeme) = .ok script.expressions := by
  unfold ofTokens
  cases Expr.readAll (tokens.map Token.toLexeme) with
  | error refusal => exact ⟨nofun, nofun⟩
  | ok es =>
    constructor
    · rintro ⟨⟩
      exact ⟨rfl, rfl⟩
    · obtain ⟨scriptTokens, scriptExpressions⟩ := script
      rintro ⟨rfl, ⟨⟩⟩
      rfl

theorem exists_read_of_isOk {source : String} (h : (read source).isOk = true) :
    ∃ script, read source = .ok script := by
  cases hread : read source with
  | error fault => simp [hread, Except.isOk, Except.toBool] at h
  | ok script => exact ⟨script, rfl⟩

theorem exists_read_of_test {source : String} {test : Script → Bool}
    (h : ((read source).toOption.any test) = true) :
    ∃ script, read source = .ok script ∧ test script = true := by
  cases hread : read source with
  | error fault =>
    rw [hread] at h
    cases h
  | ok script =>
    rw [hread] at h
    exact ⟨script, rfl, h⟩

/-- Where a range of tokens stands: from the start of its first to the end of its last token. -/
def spanOf (script : Script) (range : TokenRange) : Span :=
  ⟨(spanAt script.tokens range.start).start, (spanAt script.tokens (range.stop - 1)).stop⟩

/-- Where an expression stands. -/
def span (script : Script) (e : Expr) : Span := script.spanOf e.range

/-- All expressions of a script, each before its parts. -/
def nodes (script : Script) : List Expr := Expr.preorderAll script.expressions

/-- The tokens of a range. -/
def tokensOf (script : Script) (range : TokenRange) : List Token :=
  (script.tokens.extract range.start range.stop).toList

/-- An expression on one line: the texts of its tokens, separated by single blanks. -/
def text (script : Script) (e : Expr) : String :=
  String.intercalate " "
    (((script.tokensOf e.range).filter fun token => !token.isTrivia).map fun token => token.text)

end Script
end TypeDrift
