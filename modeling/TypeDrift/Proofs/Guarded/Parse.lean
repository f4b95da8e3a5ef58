import TypeDrift.Proofs.Guarded.Cursor

/-! # Guarded reading of expressions

The readers of expressions on spots.  They go through the same cases as the readers on cursors, with
every look at a lexeme by its index, and every expression closed by the indices of its ends.  The
bound on the depth of their calls is one on all their loops as well; a run that uses it up is
endless, and not a refusal.

Behind a branch of `if` the reader looks for `else` on the lines below, and goes back to where it was
if there is none (`Spot.alternative`).
-/
namespace TypeDrift.Spot

open TypeDrift.Expr Guarded

variable (row : List Lexeme)

/-- A name, behind its first lexeme: a bare one, or one of a package. -/
def readName (start : Nat) (first : Lexeme) (s : Spot) : Guarded Refusal (Expr × Spot) := do
  let next ← s.head row
  let hidden := next.kind == .tripleColon
  if next.kind == .doubleColon || hidden then
    let s ← s.advance row
    let s ← s.settle row
    let lexeme ← s.head row
    match memberName? lexeme false with
    | some name =>
      let s ← s.advance row
      let e ← s.close row start (.namespaced first.name name hidden)
      .ok (e, s)
    | none => s.refuse row
  else
    let e ← s.close row start (.identifier first.name)
    .ok (e, s)

/-- A member of `left`, behind `$` or `@`. -/
def readMember (left : Expr) (slot : Bool) (s : Spot) : Guarded Refusal (Expr × Spot) := do
  let s ← s.skipNewlines row
  let lexeme ← s.head row
  match memberName? lexeme true with
  | some name =>
    let s ← s.advance row
    let e ← s.close row left.range.start (.member left name slot)
    .ok (e, s)
  | none => s.refuse row

/-- The end of an expression in a row of them. -/
def expectEnd (terminator : Kind) (s : Spot) : Guarded Refusal Unit := do
  let lexeme ← s.head row
  if lexeme.kind = .newline ∨ lexeme.kind = .semicolon ∨ lexeme.kind = terminator then .ok ()
  else s.refuse row

/-- The second of two brackets that close together, if there are two. -/
def expectSecond (double : Bool) (s : Spot) : Guarded Refusal Spot :=
  if double then s.expect row .rightBracket else .ok s

/-- Where `else` is looked for. -/
def beforeElse (s : Spot) : Guarded Refusal Spot :=
  if s.brackets.isEmpty then s.settle row else do (← s.skipNewlines row).settle row

mutual

/-- An expression of operators that bind at least as strongly as `power`. -/
def read : Nat → Nat → Spot → Guarded Refusal (Expr × Spot)
  | 0, _, _ => .error .endless
  | bound + 1, power, s => do
    let (left, s) ← operand bound s
    continuation bound power left s

/-- Whatever goes on with `left` and binds it at least as strongly as `power`. -/
def continuation : Nat → Nat → Expr → Spot → Guarded Refusal (Expr × Spot)
  | 0, _, _, _ => .error .endless
  | bound + 1, power, left, s => do
    let s ← s.settle row
    let next ← s.head row
    match Continuation.ofKind? next.kind with
    | none => .ok (left, s)
    | some step =>
      if step.leftPower < power then .ok (left, s)
      else
        match step with
        | .call => do
          let behind ← s.advance row
          let (given, s) ← arguments bound .rightParen (behind.enter .round)
          let e ← s.close row left.range.start (.call left given)
          continuation bound power e s
        | .index double => do
          let behind ← s.advance row
          let (given, s) ← arguments bound .rightBracket (behind.enter .round)
          let s ← s.expectSecond row double
          let e ← s.close row left.range.start (.index left given double)
          continuation bound power e s
        | .member slot => do
          let s ← s.advance row
          let (left, s) ← s.readMember row left slot
          continuation bound power left s
        | .between level => do
          let behind ← s.advance row
          let behind ← behind.skipNewlines row
          let (right, after) ← read bound level.rightPower behind
          let e ← after.close row left.range.start (.between next s.current left right)
          continuation bound power e after

/-- An expression that no operator goes on with. -/
def operand : Nat → Spot → Guarded Refusal (Expr × Spot)
  | 0, _ => .error .endless
  | bound + 1, s => do
    let s ← s.settle row
    let start := s.current
    let first ← s.head row
    match Opening.ofLexeme? first with
    | none => s.refuse row
    | some (.leaf form) => do
      let s ← s.advance row
      let e ← s.close row start form
      .ok (e, s)
    | some .name => do
      let s ← s.advance row
      s.readName row start first
    | some .paren => do
      let s ← s.advance row
      let (inner, s) ← read bound Level.lowest.binding (s.enter .round)
      let s ← s.expect row .rightParen
      let s := s.leave
      let e ← s.close row start (.paren inner)
      .ok (e, s)
    | some .block => do
      let s ← s.advance row
      let (body, s) ← statements bound .rightBrace (s.enter .brace)
      let s ← s.advance row
      let s := s.leave
      let e ← s.close row start (.block body)
      .ok (e, s)
    | some (.sign operator level) => do
      let s ← s.advance row
      let s ← s.skipNewlines row
      let (inner, s) ← read bound level.binding s
      let e ← s.close row start (.unary operator inner)
      .ok (e, s)
    | some .tilde => do
      let s ← s.advance row
      let s ← s.skipNewlines row
      let (right, s) ← read bound Level.tilde.rightPower s
      let e ← s.close row start (.formula none right)
      .ok (e, s)
    | some .function => do
      let s ← s.advance row
      let s ← s.expect row .leftParen
      let (given, s) ← parameters bound (s.enter .round)
      let s ← s.skipNewlines row
      let (body, s) ← read bound Level.bodyPower s
      let e ← s.close row start (.function given body)
      .ok (e, s)
    | some .conditional => do
      let s ← s.advance row
      let (condition, s) ← header bound s
      let (consequent, s) ← read bound Level.bodyPower s
      let (other, s) ← alternative bound s
      let e ← s.close row start (.conditional condition consequent other)
      .ok (e, s)
    | some .forLoop => do
      let s ← s.advance row
      let s ← s.expect row .leftParen
      let s ← (s.enter .round).settle row
      let counter ← s.head row
      if counter.kind ≠ .identifier then s.refuse row
      else do
        let s ← s.advance row
        let s ← s.expect row (.keyword .inWord)
        let (sequence, s) ← read bound Level.lowest.binding s
        let s ← s.expect row .rightParen
        let s ← s.leave.skipNewlines row
        let (body, s) ← read bound Level.bodyPower s
        let e ← s.close row start (.forLoop counter.name sequence body)
        .ok (e, s)
    | some .whileLoop => do
      let s ← s.advance row
      let (condition, s) ← header bound s
      let (body, s) ← read bound Level.bodyPower s
      let e ← s.close row start (.whileLoop condition body)
      .ok (e, s)
    | some .repeatLoop => do
      let s ← s.advance row
      let s ← s.skipNewlines row
      let (body, s) ← read bound Level.bodyPower s
      let e ← s.close row start (.repeatLoop body)
      .ok (e, s)

/-- A condition in parentheses, and the line breaks behind it. -/
def header : Nat → Spot → Guarded Refusal (Expr × Spot)
  | 0, _ => .error .endless
  | bound + 1, s => do
    let s ← s.expect row .leftParen
    let (condition, s) ← read bound Level.lowest.binding (s.enter .round)
    let s ← s.expect row .rightParen
    let s ← s.leave.skipNewlines row
    .ok (condition, s)

/-- The branch behind `else`, if one comes.  If none does, the reader goes back. -/
def alternative : Nat → Spot → Guarded Refusal (Option Expr × Spot)
  | 0, _ => .error .endless
  | bound + 1, s => do
    let ahead ← s.beforeElse row
    let next ← ahead.head row
    if next.kind = .keyword .elseWord then do
      let behind ← ahead.advance row
      let behind ← behind.skipNewlines row
      let (branch, after) ← read bound Level.bodyPower behind
      .ok (some branch, after)
    else .ok (none, { ahead with current := s.current })

/-- The expressions up to a terminator. -/
def statements : Nat → Kind → Spot → Guarded Refusal (List Expr × Spot)
  | 0, _, _ => .error .endless
  | bound + 1, terminator, s => do
    let s ← s.skipSeparators row
    let next ← s.head row
    if next.kind = terminator then .ok ([], s)
    else do
      let (first, s) ← read bound Level.lowest.binding s
      s.expectEnd row terminator
      let (others, s) ← statements bound terminator s
      .ok (first :: others, s)

/-- The arguments behind an opening bracket, with the bracket that closes them. -/
def arguments : Nat → Kind → Spot → Guarded Refusal (List (Argument Expr) × Spot)
  | 0, _, _ => .error .endless
  | bound + 1, closing, s => do
    let s ← s.settle row
    let next ← s.head row
    if next.kind = closing then do
      let s ← s.advance row
      .ok ([], s.leave)
    else argumentsFrom bound closing s

/-- One argument or more, with the bracket that closes them. -/
def argumentsFrom : Nat → Kind → Spot → Guarded Refusal (List (Argument Expr) × Spot)
  | 0, _, _ => .error .endless
  | bound + 1, closing, s => do
    let (first, s) ← argument bound closing s
    let s ← s.settle row
    let next ← s.head row
    if next.kind = .comma then do
      let s ← s.advance row
      let (others, s) ← argumentsFrom bound closing s
      .ok (first :: others, s)
    else if next.kind = closing then do
      let s ← s.advance row
      .ok ([first], s.leave)
    else s.refuse row

/-- One argument, which may be empty. -/
def argument : Nat → Kind → Spot → Guarded Refusal (Argument Expr × Spot)
  | 0, _, _ => .error .endless
  | bound + 1, closing, s => do
    let s ← s.settle row
    let first ← s.head row
    match argumentName? first with
    | some name => do
      let second ← s.secondKind? row
      if second = some .equalAssign then do
        let s ← s.advance row
        let s ← s.advance row
        let (value, s) ← argumentValue bound closing s
        .ok (⟨some name, value⟩, s)
      else do
        let (value, s) ← argumentValue bound closing s
        .ok (⟨none, value⟩, s)
    | none => do
      let (value, s) ← argumentValue bound closing s
      .ok (⟨none, value⟩, s)

/-- The value of an argument, unless the argument ends at once. -/
def argumentValue : Nat → Kind → Spot → Guarded Refusal (Option Expr × Spot)
  | 0, _, _ => .error .endless
  | bound + 1, closing, s => do
    let s ← s.settle row
    let next ← s.head row
    if next.kind = .comma ∨ next.kind = closing then .ok (none, s)
    else do
      let (value, s) ← read bound Level.argumentPower s
      .ok (some value, s)

/-- The parameters behind an opening parenthesis, with the parenthesis that closes them. -/
def parameters : Nat → Spot → Guarded Refusal (List (Parameter Expr) × Spot)
  | 0, _ => .error .endless
  | bound + 1, s => do
    let s ← s.settle row
    let next ← s.head row
    if next.kind = .rightParen then do
      let s ← s.advance row
      .ok ([], s.leave)
    else parametersFrom bound s

/-- One parameter or more, with the parenthesis that closes them. -/
def parametersFrom : Nat → Spot → Guarded Refusal (List (Parameter Expr) × Spot)
  | 0, _ => .error .endless
  | bound + 1, s => do
    let s ← s.settle row
    let name ← s.head row
    if name.kind ≠ .identifier then s.refuse row
    else do
      let s ← s.advance row
      let (fallback, s) ← fallback bound s
      let s ← s.settle row
      let next ← s.head row
      if next.kind = .comma then do
        let s ← s.advance row
        let (others, s) ← parametersFrom bound s
        .ok (⟨name.name, fallback⟩ :: others, s)
      else do
        let s ← s.expect row .rightParen
        .ok ([⟨name.name, fallback⟩], s.leave)

/-- What a parameter stands for where it is not given, if that is said. -/
def fallback : Nat → Spot → Guarded Refusal (Option Expr × Spot)
  | 0, _ => .error .endless
  | bound + 1, s => do
    let s ← s.settle row
    let next ← s.head row
    if next.kind = .equalAssign then do
      let s ← s.advance row
      let (value, s) ← read bound Level.argumentPower s
      .ok (some value, s)
    else .ok (none, s)

end

/-- The expressions of a row of lexemes. -/
def readAll : Guarded Refusal (List Expr) := do
  let (expressions, _) ←
    statements row (callsPerLexeme * (row.length + 1)) .endOfInput ⟨0, 0, []⟩
  .ok expressions

end TypeDrift.Spot
