import TypeDrift.Expr.Cursor
import TypeDrift.Expr.Precedence

/-!
Reading expressions. The functions of this module read from a `Cursor` and answer with what they
read and the cursor behind it, or with the first lexeme that nothing can go on with. They look at
the kinds and the texts of lexemes only.

An expression is an operand and whatever goes on with it, as long as it binds strongly enough
(`operand`, `continuation`). Every function but the last takes a bound on the depth of its calls as
its first argument. The bound that `Expr.readAll` computes from the number of lexemes is not met:
between two lexemes taken there are never more than `callsPerLexeme` calls.
-/
namespace TypeDrift.Expr

/-- No more calls than these are nested before another lexeme is taken. -/
def callsPerLexeme : Nat := 8

/-- The name behind `::`, `$` or `@`. Reserved words can be names only of members. -/
def memberName? (lexeme : Lexeme) (keywords : Bool) : Option String :=
  match lexeme.kind with
  | .identifier => some lexeme.name
  | .string contents => some contents
  | .keyword _ => if keywords then some lexeme.text else none
  | _ => none

/-- The name that a lexeme gives to an argument, if it can stand before `=`. -/
def argumentName? (lexeme : Lexeme) : Option String :=
  match lexeme.kind with
  | .identifier | .keyword .null => some lexeme.name
  | .string contents => some contents
  | _ => none

/-- A name, behind its first lexeme: a bare one, or one of a package. -/
def readName (start : Nat) (first : Lexeme) (c : Cursor) : Except Refusal (Expr × Cursor) :=
  let hidden := c.head.kind == .tripleColon
  if c.head.kind == .doubleColon || hidden then
    let c := c.advance.settle
    match memberName? c.head false with
    | some name =>
      let c := c.advance
      .ok (c.close start (.namespaced first.name name hidden), c)
    | none => .error c.refusal
  else .ok (c.close start (.identifier first.name), c)

/-- A member of `left`, behind `$` or `@`. -/
def readMember (left : Expr) (slot : Bool) (c : Cursor) : Except Refusal (Expr × Cursor) :=
  let c := c.skipNewlines
  match memberName? c.head true with
  | some name =>
    let c := c.advance
    .ok (c.close left.range.start (.member left name slot), c)
  | none => .error c.refusal

/-- The end of an expression in a row of them: a separator, or what ends the row. -/
def expectEnd (terminator : Kind) (c : Cursor) : Except Refusal Unit :=
  if c.head.kind = .newline ∨ c.head.kind = .semicolon ∨ c.head.kind = terminator then .ok ()
  else .error c.refusal

mutual

/-- An expression of operators that bind at least as strongly as `power`. -/
def read : Nat → Nat → Cursor → Except Refusal (Expr × Cursor)
  | 0, _, c => .error c.refusal
  | bound + 1, power, c => do
    let (left, c) ← operand bound c
    continuation bound power left c

/-- Whatever goes on with `left` and binds it at least as strongly as `power`. -/
def continuation : Nat → Nat → Expr → Cursor → Except Refusal (Expr × Cursor)
  | 0, _, _, c => .error c.refusal
  | bound + 1, power, left, c =>
    let c := c.settle
    match Continuation.ofKind? c.head.kind with
    | none => .ok (left, c)
    | some step =>
      if step.leftPower < power then .ok (left, c)
      else
        match step with
        | .call => do
          let (given, c) ← arguments bound .rightParen (c.advance.enter .round)
          continuation bound power (c.close left.range.start (.call left given)) c
        | .index double => do
          let (given, c) ← arguments bound .rightBracket (c.advance.enter .round)
          let c ← if double then c.expect .rightBracket else .ok c
          continuation bound power (c.close left.range.start (.index left given double)) c
        | .member slot => do
          let (left, c) ← readMember left slot c.advance
          continuation bound power left c
        | .between level => do
          let (right, after) ← read bound level.rightPower c.advance.skipNewlines
          let form := Form.between c.head c.index left right
          continuation bound power (after.close left.range.start form) after

/-- An expression that no operator goes on with. -/
def operand : Nat → Cursor → Except Refusal (Expr × Cursor)
  | 0, c => .error c.refusal
  | bound + 1, c =>
    let c := c.settle
    let start := c.index
    match Opening.ofLexeme? c.head with
    | none => .error c.refusal
    | some (.leaf form) =>
      let c := c.advance
      .ok (c.close start form, c)
    | some .name => readName start c.head c.advance
    | some .paren => do
      let (inner, c) ← read bound Level.lowest.binding (c.advance.enter .round)
      let c ← c.expect .rightParen
      let c := c.leave
      .ok (c.close start (.paren inner), c)
    | some .block => do
      let (body, c) ← statements bound .rightBrace (c.advance.enter .brace)
      let c := c.advance.leave
      .ok (c.close start (.block body), c)
    | some (.sign operator level) => do
      let (inner, c) ← read bound level.binding c.advance.skipNewlines
      .ok (c.close start (.unary operator inner), c)
    | some .tilde => do
      let (right, c) ← read bound Level.tilde.rightPower c.advance.skipNewlines
      .ok (c.close start (.formula none right), c)
    | some .function => do
      let c ← c.advance.expect .leftParen
      let (given, c) ← parameters bound (c.enter .round)
      let (body, c) ← read bound Level.bodyPower c.skipNewlines
      .ok (c.close start (.function given body), c)
    | some .conditional => do
      let (condition, c) ← header bound c.advance
      let (consequent, c) ← read bound Level.bodyPower c
      let (alternative, c) ← alternative bound c
      .ok (c.close start (.conditional condition consequent alternative), c)
    | some .forLoop => do
      let c ← c.advance.expect .leftParen
      let c := (c.enter .round).settle
      let counter := c.head
      if counter.kind ≠ .identifier then .error c.refusal
      else do
        let c ← c.advance.expect (.keyword .inWord)
        let (sequence, c) ← read bound Level.lowest.binding c
        let c ← c.expect .rightParen
        let (body, c) ← read bound Level.bodyPower c.leave.skipNewlines
        .ok (c.close start (.forLoop counter.name sequence body), c)
    | some .whileLoop => do
      let (condition, c) ← header bound c.advance
      let (body, c) ← read bound Level.bodyPower c
      .ok (c.close start (.whileLoop condition body), c)
    | some .repeatLoop => do
      let (body, c) ← read bound Level.bodyPower c.advance.skipNewlines
      .ok (c.close start (.repeatLoop body), c)

/-- A condition in parentheses, and the line breaks behind it. -/
def header : Nat → Cursor → Except Refusal (Expr × Cursor)
  | 0, c => .error c.refusal
  | bound + 1, c => do
    let c ← c.expect .leftParen
    let (condition, c) ← read bound Level.lowest.binding (c.enter .round)
    let c ← c.expect .rightParen
    .ok (condition, c.leave.skipNewlines)

/-- The branch behind `else`, if one comes. Inside brackets it may stand on another line than the
branch before it; outside of all brackets that one would have ended the expression. -/
def alternative : Nat → Cursor → Except Refusal (Option Expr × Cursor)
  | 0, c => .error c.refusal
  | bound + 1, c =>
    let ahead := if c.brackets.isEmpty then c else c.skipNewlines
    if ahead.head.kind = .keyword .elseWord then do
      let (branch, c) ← read bound Level.bodyPower ahead.advance.skipNewlines
      .ok (some branch, c)
    else .ok (none, c)

/-- The expressions up to a terminator, each ended by a separator or by the terminator, which is not
taken. -/
def statements : Nat → Kind → Cursor → Except Refusal (List Expr × Cursor)
  | 0, _, c => .error c.refusal
  | bound + 1, terminator, c =>
    let c := c.skipSeparators
    if c.head.kind = terminator then .ok ([], c)
    else do
      let (first, c) ← read bound Level.lowest.binding c
      expectEnd terminator c
      let (others, c) ← statements bound terminator c
      .ok (first :: others, c)

/-- The arguments behind an opening bracket, with the bracket that closes them. -/
def arguments : Nat → Kind → Cursor → Except Refusal (List (Argument Expr) × Cursor)
  | 0, _, c => .error c.refusal
  | bound + 1, closing, c =>
    let c := c.settle
    if c.head.kind = closing then .ok ([], c.advance.leave)
    else argumentsFrom bound closing c

/-- One argument or more, with the bracket that closes them. -/
def argumentsFrom : Nat → Kind → Cursor → Except Refusal (List (Argument Expr) × Cursor)
  | 0, _, c => .error c.refusal
  | bound + 1, closing, c => do
    let (first, c) ← argument bound closing c
    let c := c.settle
    if c.head.kind = .comma then
      let (others, c) ← argumentsFrom bound closing c.advance
      .ok (first :: others, c)
    else if c.head.kind = closing then .ok ([first], c.advance.leave)
    else .error c.refusal

/-- One argument, which may be empty. -/
def argument : Nat → Kind → Cursor → Except Refusal (Argument Expr × Cursor)
  | 0, _, c => .error c.refusal
  | bound + 1, closing, c =>
    let c := c.settle
    match argumentName? c.head with
    | some name =>
      if c.secondKind? = some .equalAssign then do
        let (value, c) ← argumentValue bound closing c.advance.settle.advance
        .ok (⟨some name, value⟩, c)
      else do
        let (value, c) ← argumentValue bound closing c
        .ok (⟨none, value⟩, c)
    | none => do
      let (value, c) ← argumentValue bound closing c
      .ok (⟨none, value⟩, c)

/-- The value of an argument, unless the argument ends at once. -/
def argumentValue : Nat → Kind → Cursor → Except Refusal (Option Expr × Cursor)
  | 0, _, c => .error c.refusal
  | bound + 1, closing, c =>
    let c := c.settle
    if c.head.kind = .comma ∨ c.head.kind = closing then .ok (none, c)
    else do
      let (value, c) ← read bound Level.argumentPower c
      .ok (some value, c)

/-- The parameters behind an opening parenthesis, with the parenthesis that closes them. -/
def parameters : Nat → Cursor → Except Refusal (List (Parameter Expr) × Cursor)
  | 0, c => .error c.refusal
  | bound + 1, c =>
    let c := c.settle
    if c.head.kind = .rightParen then .ok ([], c.advance.leave)
    else parametersFrom bound c

/-- One parameter or more, with the parenthesis that closes them. -/
def parametersFrom : Nat → Cursor → Except Refusal (List (Parameter Expr) × Cursor)
  | 0, c => .error c.refusal
  | bound + 1, c => do
    let c := c.settle
    let name := c.head
    if name.kind ≠ .identifier then .error c.refusal
    else
      let (fallback, c) ← fallback bound c.advance
      let first : Parameter Expr := ⟨name.name, fallback⟩
      let c := c.settle
      if c.head.kind = .comma then
        let (others, c) ← parametersFrom bound c.advance
        .ok (first :: others, c)
      else do
        let c ← c.expect .rightParen
        .ok ([first], c.leave)

/-- What a parameter stands for where it is not given, if that is said. -/
def fallback : Nat → Cursor → Except Refusal (Option Expr × Cursor)
  | 0, c => .error c.refusal
  | bound + 1, c =>
    let c := c.settle
    if c.head.kind = .equalAssign then do
      let (value, c) ← read bound Level.argumentPower c.advance
      .ok (some value, c)
    else .ok (none, c)

end

/-- The expressions of a row of lexemes, or the first lexeme that nothing can go on with. -/
def readAll (lexemes : List Lexeme) : Except Refusal (List Expr) := do
  let (expressions, _) ←
    statements (callsPerLexeme * (lexemes.length + 1)) .endOfInput (.ofLexemes lexemes)
  .ok expressions

end TypeDrift.Expr
