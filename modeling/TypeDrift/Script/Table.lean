import TypeDrift.Script.Basic
import TypeDrift.Text.Layout

/-!
Parse tables. A table flattens a script into rows: one for every token that is written out, one for
every expression. A row knows the expression it belongs to by number. Tokens are numbered by their
position, from one; expressions are numbered behind them, each before its parts. The rows are
ordered so that an expression comes right before its parts and its tokens.
-/
namespace TypeDrift

/-- A row of a parse table. -/
structure Row where
  id : Nat
  /-- The innermost expression around the row's own, or zero outside of all. -/
  parent : Nat
  name : String
  text : String
  span : Span
  /-- Whether the row is that of a token. -/
  terminal : Bool
deriving DecidableEq, Repr

/-- The rows of a script. -/
structure Table where
  rows : List Row
deriving Repr

namespace Row

/-- The order of rows: by start, the one that ends later first, and of two that stand at the same
place the expression first. -/
def le (a b : Row) : Bool :=
  if a.span.start = b.span.start then
    if a.span.stop = b.span.stop then !a.terminal || b.terminal
    else b.span.stop.le a.span.stop
  else a.span.start.le b.span.start

/-- A line of the table on paper, from the texts of its columns. -/
def line (line₁ column₁ line₂ column₂ id parent name terminal text : String) : String :=
  String.intercalate " "
    [Text.alignRight 5 line₁, Text.alignRight 5 column₁, Text.alignRight 5 line₂,
      Text.alignRight 5 column₂, Text.alignRight 5 id, Text.alignRight 6 parent,
      Text.alignLeft 22 name, Text.alignLeft 5 terminal, text] ++ "\n"

/-- A row on paper. -/
def render (row : Row) : String :=
  line (toString row.span.start.line) (toString row.span.start.column)
    (toString row.span.stop.line) (toString row.span.stop.column) (toString row.id)
    (toString row.parent) row.name (if row.terminal then "TRUE" else "FALSE") row.text

end Row

namespace Script

/-- The expressions of a script with their numbers. -/
def numbered (script : Script) : List (Numbered Expr) :=
  Tree.numberAll (script.tokens.size + 1) 0 (script.expressions.map Expr.tree)

/-- The row of an expression. -/
def expressionRow (script : Script) (node : Numbered Expr) : Row :=
  { id := node.id
    parent := node.parent
    name := "expr"
    text := ""
    span := script.span node.label
    terminal := false }

/-- The number of the innermost expression whose tokens include the one with this index. Of the
expressions around a token the innermost one has the greatest number and so comes last. -/
def owner (nodes : List (Numbered Expr)) (index : Nat) : Nat :=
  nodes.foldl (fun found node => if node.label.range.contains index then node.id else found) 0

/-- The index of the token that names the function of a call. -/
def calleeToken? (e : Expr) : Option Nat :=
  match e.form with
  | .call callee _ =>
    match callee.form with
    | .identifier _ | .namespaced .. => some (callee.range.stop - 1)
    | _ => none
  | _ => none

/-- The name of a token in the table: that of its kind, unless it is a symbol that names the
function of a call. -/
def terminalName (callees : List Nat) (index : Nat) (kind : Kind) : String :=
  if kind = .identifier ∧ index ∈ callees then "SYMBOL_FUNCTION_CALL" else kind.tableName

/-- The row of a token, if it is written out. -/
def terminalRow? (nodes : List (Numbered Expr)) (callees : List Nat) (token : Token)
    (index : Nat) : Option Row :=
  if token.isTrivia then none
  else
    some
      { id := index + 1
        parent := owner nodes index
        name := terminalName callees index token.kind
        text := token.text
        span := token.span
        terminal := true }

/-- The parse table of a script. -/
def table (script : Script) : Table :=
  let nodes := script.numbered
  let callees := nodes.filterMap fun node => calleeToken? node.label
  let terminals := script.tokens.toList.zipIdx.filterMap fun token =>
    terminalRow? nodes callees token.1 token.2
  ⟨(nodes.map script.expressionRow ++ terminals).mergeSort Row.le⟩

end Script

namespace Table

/-- The row with a number. -/
def row? (table : Table) (id : Nat) : Option Row := table.rows.find? fun row => row.id == id

/-- The rows that belong to the expression with a number. -/
def children (table : Table) (id : Nat) : List Row := table.rows.filter fun row => row.parent == id

/-- The rows of tokens. -/
def terminals (table : Table) : List Row := table.rows.filter Row.terminal

/-- The rows of the operators that bind names. -/
def assignmentOperators (table : Table) : List Row :=
  table.terminals.filter fun row =>
    row.name == "LEFT_ASSIGN" || row.name == "RIGHT_ASSIGN" || row.name == "EQ_ASSIGN"

/-- The table on paper: a heading, and a line for every row. -/
def render (table : Table) : String :=
  Row.line "line1" "col1" "line2" "col2" "id" "parent" "token" "term" "text" ++
    String.join (table.rows.map Row.render)

end Table
end TypeDrift
