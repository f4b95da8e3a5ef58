import TypeDrift.Proofs.Guarded.Reading

/-! # Guarded reading with its visits

A reader that enters a bracket leaves it again somewhere else in its text: the open brackets go
along with the place, and a reader that forgot to leave one would change how everything behind it is
read.  To say that none does, the readers are written once more.  Each of them is handed the
constructs that it reads the contents of.  These are an argument and no part of the place, so that
they hold for just as long as the contents are read.  And it is noted when a routine is visited:
with the constructs around it, the place where it begins, and the place where it ends if it
succeeds.

But for what is noted, a noted run is the guarded run (`Task.outcome_note`).
-/
namespace TypeDrift

/-- The kinds of the reserved words. -/
def Kind.isKeyword : Kind → Bool
  | keyword _ => true
  | _ => false

/-- What is written between two brackets. -/
inductive Construct where
  /-- An expression in parentheses. -/
  | paren
  /-- The arguments of a call. -/
  | arguments
  /-- The arguments of an index, in single or in double brackets. -/
  | index (double : Bool)
  /-- The parameters of a function. -/
  | parameters
  /-- What stands in parentheses behind `if`, `while` or `for`. -/
  | header
  /-- Expressions in braces. -/
  | block
deriving DecidableEq, Repr

/-- What the contents of a construct are read inside of. -/
def Construct.bracket : Construct → Bracket
  | block => .brace
  | _ => .round

/-- The functions that read.  Some of them are only called by `operand`, each for the expressions
that begin with certain lexemes. -/
inductive Routine where
  | expression
  | operand
  /-- An operand that begins with a reserved word. -/
  | keyword
  | block
  | function
  | header
  /-- A conditional, behind `if`. -/
  | conditional
  /-- The last part of a conditional, where `else` is looked for.  The index is that of `if`. -/
  | elseBranch (place : Nat)
  | forLoop
  | whileLoop
  | arguments
  | argument
deriving DecidableEq, Repr

/-- A routine that is visited. -/
structure Visit where
  routine : Routine
  /-- The constructs whose contents are being read, the innermost one first. -/
  inside : List Construct
  /-- Where the routine begins. -/
  start : Spot
  /-- Where it ends, if it succeeds. -/
  stop? : Option Spot
deriving Repr

/-- A guarded run with the routines that it visits, in the order in which they begin. -/
structure Noted (α : Type) where
  visits : List Visit
  outcome : Guarded Refusal α

namespace Noted

variable {α β : Type}

/-- A run that visits no routine. -/
def silent (outcome : Guarded Refusal α) : Noted α := ⟨[], outcome⟩

instance : Monad Noted where
  pure a := silent (.ok a)
  bind run next :=
    match run.outcome with
    | .ok a => ⟨run.visits ++ (next a).visits, (next a).outcome⟩
    | .error failure => ⟨run.visits, .error failure⟩

/-- A run that is a visit of a routine. -/
def visiting (routine : Routine) (inside : List Construct) (s : Spot) (run : Noted (α × Spot)) :
    Noted (α × Spot) :=
  ⟨⟨routine, inside, s, run.outcome.toOption.map Prod.snd⟩ :: run.visits, run.outcome⟩

/-- A run that is a visit of a routine, if `visited` says so. -/
def visitingIf (visited : Bool) (routine : Routine) (inside : List Construct) (s : Spot)
    (run : Noted (α × Spot)) : Noted (α × Spot) :=
  if visited then visiting routine inside s run else run

/-! ## What is left without the notes -/

theorem outcome_visiting (routine : Routine) (inside : List Construct) (s : Spot)
    (run : Noted (α × Spot)) : (visiting routine inside s run).outcome = run.outcome := rfl

theorem outcome_visitingIf (visited : Bool) (routine : Routine) (inside : List Construct) (s : Spot)
    (run : Noted (α × Spot)) : (visitingIf visited routine inside s run).outcome = run.outcome := by
  cases visited <;> rfl

theorem outcome_bind {run : Noted α} {next : α → Noted β} {x : Guarded Refusal α}
    {f : α → Guarded Refusal β} (hrun : run.outcome = x) (hnext : ∀ a, (next a).outcome = f a) :
    (run >>= next).outcome = x >>= f := by
  subst hrun
  obtain ⟨visits, failure | a⟩ := run
  · rfl
  · exact hnext a

/-- Behind a reader, which answers with a place too. -/
theorem outcome_reader_bind {run : Noted (α × Spot)} {next : α × Spot → Noted β}
    {x : Guarded Refusal (α × Spot)} {f : α × Spot → Guarded Refusal β} (hrun : run.outcome = x)
    (hnext : ∀ a s, (next (a, s)).outcome = f (a, s)) : (run >>= next).outcome = x >>= f :=
  outcome_bind hrun fun a => hnext a.1 a.2

theorem outcome_silent_bind {x : Guarded Refusal α} {next : α → Noted β}
    {f : α → Guarded Refusal β} (hnext : ∀ a, (next a).outcome = f a) :
    (silent x >>= next).outcome = x >>= f := outcome_bind rfl hnext

/-! ## The readers -/

open TypeDrift.Expr

variable (row : List Lexeme)

mutual

/-- An expression of operators that bind at least as strongly as `power`. -/
def read : Nat → List Construct → Nat → Spot → Noted (Expr × Spot)
  | 0, _, _, _ => silent (.error .endless)
  | bound + 1, inside, power, s => visiting .expression inside s do
    let (left, s) ← operand bound inside s
    continuation bound inside power left s

/-- Whatever goes on with `left` and binds it at least as strongly as `power`. -/
def continuation : Nat → List Construct → Nat → Expr → Spot → Noted (Expr × Spot)
  | 0, _, _, _, _ => silent (.error .endless)
  | bound + 1, inside, power, left, s => do
    let s ← silent (s.settle row)
    let next ← silent (s.head row)
    match Continuation.ofKind? next.kind with
    | none => pure (left, s)
    | some step =>
      if step.leftPower < power then pure (left, s)
      else
        match step with
        | .call => do
          let behind ← silent (s.advance row)
          let (given, s) ← visiting .arguments inside behind
            (arguments bound (.arguments :: inside) .rightParen (behind.enter .round))
          let e ← silent (s.close row left.range.start (.call left given))
          continuation bound inside power e s
        | .index double => do
          let behind ← silent (s.advance row)
          let (given, s) ← visiting .arguments inside behind
            (arguments bound (.index double :: inside) .rightBracket (behind.enter .round))
          let s ← silent (s.expectSecond row double)
          let e ← silent (s.close row left.range.start (.index left given double))
          continuation bound inside power e s
        | .member slot => do
          let s ← silent (s.advance row)
          let (left, s) ← silent (s.readMember row left slot)
          continuation bound inside power left s
        | .between level => do
          let behind ← silent (s.advance row)
          let behind ← silent (behind.skipNewlines row)
          let (right, after) ← read bound inside level.rightPower behind
          let e ← silent (after.close row left.range.start (.between next s.current left right))
          continuation bound inside power e after

/-- An expression that no operator goes on with. -/
def operand : Nat → List Construct → Spot → Noted (Expr × Spot)
  | 0, _, _ => silent (.error .endless)
  | bound + 1, inside, s => visiting .operand inside s do
    let s ← silent (s.settle row)
    let start := s.current
    let first ← silent (s.head row)
    visitingIf first.kind.isKeyword .keyword inside s
      (match Opening.ofLexeme? first with
      | none => silent (s.refuse row)
      | some (.leaf form) => do
        let s ← silent (s.advance row)
        let e ← silent (s.close row start form)
        pure (e, s)
      | some .name => do
        let s ← silent (s.advance row)
        silent (s.readName row start first)
      | some .paren => do
        let s ← silent (s.advance row)
        let (inner, s) ← read bound (.paren :: inside) Level.lowest.binding (s.enter .round)
        let s ← silent (s.expect row .rightParen)
        let s := s.leave
        let e ← silent (s.close row start (.paren inner))
        pure (e, s)
      | some .block => visiting .block inside s do
        let s ← silent (s.advance row)
        let (body, s) ← statements bound (.block :: inside) .rightBrace (s.enter .brace)
        let s ← silent (s.advance row)
        let s := s.leave
        let e ← silent (s.close row start (.block body))
        pure (e, s)
      | some (.sign operator level) => do
        let s ← silent (s.advance row)
        let s ← silent (s.skipNewlines row)
        let (inner, s) ← read bound inside level.binding s
        let e ← silent (s.close row start (.unary operator inner))
        pure (e, s)
      | some .tilde => do
        let s ← silent (s.advance row)
        let s ← silent (s.skipNewlines row)
        let (right, s) ← read bound inside Level.tilde.rightPower s
        let e ← silent (s.close row start (.formula none right))
        pure (e, s)
      | some .function => do
        let s ← silent (s.advance row)
        visiting .function inside s do
          let s ← silent (s.expect row .leftParen)
          let (given, s) ← parameters bound (.parameters :: inside) (s.enter .round)
          let s ← silent (s.skipNewlines row)
          let (body, s) ← read bound inside Level.bodyPower s
          let e ← silent (s.close row start (.function given body))
          pure (e, s)
      | some .conditional => do
        let s ← silent (s.advance row)
        visiting .conditional inside s do
          let (condition, s) ← header bound inside s
          let (consequent, s) ← read bound inside Level.bodyPower s
          let (other, s) ←
            visiting (.elseBranch start) inside s (alternative bound inside s)
          let e ← silent (s.close row start (.conditional condition consequent other))
          pure (e, s)
      | some .forLoop => do
        let s ← silent (s.advance row)
        visiting .forLoop inside s do
          let s ← silent (s.expect row .leftParen)
          let s ← silent ((s.enter .round).settle row)
          let counter ← silent (s.head row)
          if counter.kind ≠ .identifier then silent (s.refuse row)
          else do
            let s ← silent (s.advance row)
            let s ← silent (s.expect row (.keyword .inWord))
            let (sequence, s) ← read bound (.header :: inside) Level.lowest.binding s
            let s ← silent (s.expect row .rightParen)
            let s ← silent (s.leave.skipNewlines row)
            let (body, s) ← read bound inside Level.bodyPower s
            let e ← silent (s.close row start (.forLoop counter.name sequence body))
            pure (e, s)
      | some .whileLoop => do
        let s ← silent (s.advance row)
        visiting .whileLoop inside s do
          let (condition, s) ← header bound inside s
          let (body, s) ← read bound inside Level.bodyPower s
          let e ← silent (s.close row start (.whileLoop condition body))
          pure (e, s)
      | some .repeatLoop => do
        let s ← silent (s.advance row)
        let s ← silent (s.skipNewlines row)
        let (body, s) ← read bound inside Level.bodyPower s
        let e ← silent (s.close row start (.repeatLoop body))
        pure (e, s))

/-- A condition in parentheses, and the line breaks behind it. -/
def header : Nat → List Construct → Spot → Noted (Expr × Spot)
  | 0, _, _ => silent (.error .endless)
  | bound + 1, inside, s => visiting .header inside s do
    let s ← silent (s.expect row .leftParen)
    let (condition, s) ← read bound (.header :: inside) Level.lowest.binding (s.enter .round)
    let s ← silent (s.expect row .rightParen)
    let s ← silent (s.leave.skipNewlines row)
    pure (condition, s)

/-- The branch behind `else`, if one comes. -/
def alternative : Nat → List Construct → Spot → Noted (Option Expr × Spot)
  | 0, _, _ => silent (.error .endless)
  | bound + 1, inside, s => do
    let ahead ← silent (s.beforeElse row)
    let next ← silent (ahead.head row)
    if next.kind = .keyword .elseWord then do
      let behind ← silent (ahead.advance row)
      let behind ← silent (behind.skipNewlines row)
      let (branch, after) ← read bound inside Level.bodyPower behind
      pure (some branch, after)
    else pure (none, { ahead with current := s.current })

/-- The expressions up to a terminator. -/
def statements : Nat → List Construct → Kind → Spot → Noted (List Expr × Spot)
  | 0, _, _, _ => silent (.error .endless)
  | bound + 1, inside, terminator, s => do
    let s ← silent (s.skipSeparators row)
    let next ← silent (s.head row)
    if next.kind = terminator then pure ([], s)
    else do
      let (first, s) ← read bound inside Level.lowest.binding s
      silent (s.expectEnd row terminator)
      let (others, s) ← statements bound inside terminator s
      pure (first :: others, s)

/-- The arguments behind an opening bracket, with the bracket that closes them. -/
def arguments : Nat → List Construct → Kind → Spot → Noted (List (Argument Expr) × Spot)
  | 0, _, _, _ => silent (.error .endless)
  | bound + 1, inside, closing, s => do
    let s ← silent (s.settle row)
    let next ← silent (s.head row)
    if next.kind = closing then do
      let s ← silent (s.advance row)
      pure ([], s.leave)
    else argumentsFrom bound inside closing s

/-- One argument or more, with the bracket that closes them. -/
def argumentsFrom : Nat → List Construct → Kind → Spot → Noted (List (Argument Expr) × Spot)
  | 0, _, _, _ => silent (.error .endless)
  | bound + 1, inside, closing, s => do
    let (first, s) ← argument bound inside closing s
    let s ← silent (s.settle row)
    let next ← silent (s.head row)
    if next.kind = .comma then do
      let s ← silent (s.advance row)
      let (others, s) ← argumentsFrom bound inside closing s
      pure (first :: others, s)
    else if next.kind = closing then do
      let s ← silent (s.advance row)
      pure ([first], s.leave)
    else silent (s.refuse row)

/-- One argument, which may be empty. -/
def argument : Nat → List Construct → Kind → Spot → Noted (Argument Expr × Spot)
  | 0, _, _, _ => silent (.error .endless)
  | bound + 1, inside, closing, s => visiting .argument inside s do
    let s ← silent (s.settle row)
    let first ← silent (s.head row)
    match argumentName? first with
    | some name => do
      let second ← silent (s.secondKind? row)
      if second = some .equalAssign then do
        let s ← silent (s.advance row)
        let s ← silent (s.advance row)
        let (value, s) ← argumentValue bound inside closing s
        pure (⟨some name, value⟩, s)
      else do
        let (value, s) ← argumentValue bound inside closing s
        pure (⟨none, value⟩, s)
    | none => do
      let (value, s) ← argumentValue bound inside closing s
      pure (⟨none, value⟩, s)

/-- The value of an argument, unless the argument ends at once. -/
def argumentValue : Nat → List Construct → Kind → Spot → Noted (Option Expr × Spot)
  | 0, _, _, _ => silent (.error .endless)
  | bound + 1, inside, closing, s => do
    let s ← silent (s.settle row)
    let next ← silent (s.head row)
    if next.kind = .comma ∨ next.kind = closing then pure (none, s)
    else do
      let (value, s) ← read bound inside Level.argumentPower s
      pure (some value, s)

/-- The parameters behind an opening parenthesis, with the parenthesis that closes them. -/
def parameters : Nat → List Construct → Spot → Noted (List (Parameter Expr) × Spot)
  | 0, _, _ => silent (.error .endless)
  | bound + 1, inside, s => do
    let s ← silent (s.settle row)
    let next ← silent (s.head row)
    if next.kind = .rightParen then do
      let s ← silent (s.advance row)
      pure ([], s.leave)
    else parametersFrom bound inside s

/-- One parameter or more, with the parenthesis that closes them. -/
def parametersFrom : Nat → List Construct → Spot → Noted (List (Parameter Expr) × Spot)
  | 0, _, _ => silent (.error .endless)
  | bound + 1, inside, s => do
    let s ← silent (s.settle row)
    let name ← silent (s.head row)
    if name.kind ≠ .identifier then silent (s.refuse row)
    else do
      let s ← silent (s.advance row)
      let (fallback, s) ← fallback bound inside s
      let s ← silent (s.settle row)
      let next ← silent (s.head row)
      if next.kind = .comma then do
        let s ← silent (s.advance row)
        let (others, s) ← parametersFrom bound inside s
        pure (⟨name.name, fallback⟩ :: others, s)
      else do
        let s ← silent (s.expect row .rightParen)
        pure ([⟨name.name, fallback⟩], s.leave)

/-- What a parameter stands for where it is not given, if that is said. -/
def fallback : Nat → List Construct → Spot → Noted (Option Expr × Spot)
  | 0, _, _ => silent (.error .endless)
  | bound + 1, inside, s => do
    let s ← silent (s.settle row)
    let next ← silent (s.head row)
    if next.kind = .equalAssign then do
      let s ← silent (s.advance row)
      let (value, s) ← read bound inside Level.argumentPower s
      pure (some value, s)
    else pure (none, s)

end

/-- The expressions of a row of lexemes. -/
def readAll : Noted (List Expr) := do
  let (expressions, _) ←
    statements row (callsPerLexeme * (row.length + 1)) [] .endOfInput ⟨0, 0, []⟩
  pure expressions

end Noted

/-! ## The readers without the notes -/

namespace Expr

open Noted

variable {row : List Lexeme}

/-- The noted call, with its bound and the constructs around it. -/
def Task.note (row : List Lexeme) (bound : Nat) (inside : List Construct) :
    (task : Task) → Spot → Noted (task.Result × Spot)
  | expression power => Noted.read row bound inside power
  | continuation power left => Noted.continuation row bound inside power left
  | operand => Noted.operand row bound inside
  | header => Noted.header row bound inside
  | alternative => Noted.alternative row bound inside
  | statements terminator => Noted.statements row bound inside terminator
  | arguments closer => Noted.arguments row bound inside closer.kind
  | argumentsFrom closer => Noted.argumentsFrom row bound inside closer.kind
  | argument closer => Noted.argument row bound inside closer.kind
  | argumentValue closer => Noted.argumentValue row bound inside closer.kind
  | parameters => Noted.parameters row bound inside
  | parametersFrom => Noted.parametersFrom row bound inside
  | fallback => Noted.fallback row bound inside

/-- With this bound, noted calls have the outcomes of guarded calls. -/
def Mirrors (row : List Lexeme) (bound : Nat) : Prop :=
  ∀ (task : Task) (inside : List Construct) (s : Spot),
    (task.note row bound inside s).outcome = task.runSpot row bound s

section Step
variable {bound : Nat} (mirrors : Mirrors row bound) (inside : List Construct) (s : Spot)
include mirrors

theorem Mirrors.read (power : Nat) (inside : List Construct) (s : Spot) :
    (Noted.read row bound inside power s).outcome = Spot.read row bound power s :=
  mirrors (.expression power) inside s

theorem outcome_continuation (power : Nat) (left : Expr) :
    (Noted.continuation row (bound + 1) inside power left s).outcome =
      Spot.continuation row (bound + 1) power left s := by
  simp only [Noted.continuation, Spot.continuation]
  refine outcome_silent_bind fun s => outcome_silent_bind fun next => ?_
  cases Continuation.ofKind? next.kind with
  | none => rfl
  | some step =>
    simp only
    split
    · rfl
    · cases step with
      | call =>
        refine outcome_silent_bind fun behind => ?_
        refine outcome_reader_bind (mirrors (.arguments .paren) _ _) fun given s => ?_
        exact outcome_silent_bind fun e => mirrors (.continuation power e) inside s
      | index double =>
        refine outcome_silent_bind fun behind => ?_
        refine outcome_reader_bind (mirrors (.arguments .bracket) _ _) fun given s => ?_
        refine outcome_silent_bind fun s => ?_
        exact outcome_silent_bind fun e => mirrors (.continuation power e) inside s
      | member slot =>
        refine outcome_silent_bind fun s => outcome_reader_bind rfl fun left s => ?_
        exact mirrors (.continuation power left) inside s
      | between level =>
        refine outcome_silent_bind fun behind => outcome_silent_bind fun behind => ?_
        refine outcome_reader_bind (mirrors.read _ _ _) fun right after => ?_
        exact outcome_silent_bind fun e => mirrors (.continuation power e) inside after

theorem outcome_operand :
    (Noted.operand row (bound + 1) inside s).outcome = Spot.operand row (bound + 1) s := by
  simp only [Noted.operand, Spot.operand, outcome_visiting]
  refine outcome_silent_bind fun s => outcome_silent_bind fun first => ?_
  rw [outcome_visitingIf]
  cases Opening.ofLexeme? first with
  | none => rfl
  | some opening =>
    cases opening with
    | leaf form => exact outcome_silent_bind fun s => outcome_silent_bind fun e => rfl
    | name => exact outcome_silent_bind fun s => rfl
    | paren =>
      refine outcome_silent_bind fun s => outcome_reader_bind (mirrors.read _ _ _) fun inner s => ?_
      exact outcome_silent_bind fun s => outcome_silent_bind fun e => rfl
    | block =>
      refine outcome_silent_bind fun s => ?_
      refine outcome_reader_bind (mirrors (.statements .rightBrace) _ _) fun body s => ?_
      exact outcome_silent_bind fun s => outcome_silent_bind fun e => rfl
    | sign operator level =>
      refine outcome_silent_bind fun s => outcome_silent_bind fun s => ?_
      refine outcome_reader_bind (mirrors.read _ _ _) fun inner s => ?_
      exact outcome_silent_bind fun e => rfl
    | tilde =>
      refine outcome_silent_bind fun s => outcome_silent_bind fun s => ?_
      refine outcome_reader_bind (mirrors.read _ _ _) fun right s => ?_
      exact outcome_silent_bind fun e => rfl
    | function =>
      refine outcome_silent_bind fun s => outcome_silent_bind fun s => ?_
      refine outcome_reader_bind (mirrors .parameters _ _) fun given s => ?_
      refine outcome_silent_bind fun s => outcome_reader_bind (mirrors.read _ _ _) fun body s => ?_
      exact outcome_silent_bind fun e => rfl
    | conditional =>
      refine outcome_silent_bind fun s => ?_
      refine outcome_reader_bind (mirrors .header _ _) fun condition s => ?_
      refine outcome_reader_bind (mirrors.read _ _ _) fun consequent s => ?_
      refine outcome_reader_bind (mirrors .alternative _ _) fun other s => ?_
      exact outcome_silent_bind fun e => rfl
    | forLoop =>
      refine outcome_silent_bind fun s => outcome_silent_bind fun s => ?_
      refine outcome_silent_bind fun s => outcome_silent_bind fun counter => ?_
      split
      · rfl
      · refine outcome_silent_bind fun s => outcome_silent_bind fun s => ?_
        refine outcome_reader_bind (mirrors.read _ _ _) fun sequence s => ?_
        refine outcome_silent_bind fun s => outcome_silent_bind fun s => ?_
        refine outcome_reader_bind (mirrors.read _ _ _) fun body s => ?_
        exact outcome_silent_bind fun e => rfl
    | whileLoop =>
      refine outcome_silent_bind fun s => ?_
      refine outcome_reader_bind (mirrors .header _ _) fun condition s => ?_
      refine outcome_reader_bind (mirrors.read _ _ _) fun body s => ?_
      exact outcome_silent_bind fun e => rfl
    | repeatLoop =>
      refine outcome_silent_bind fun s => outcome_silent_bind fun s => ?_
      refine outcome_reader_bind (mirrors.read _ _ _) fun body s => ?_
      exact outcome_silent_bind fun e => rfl

theorem outcome_argument (closer : Closer) :
    (Noted.argument row (bound + 1) inside closer.kind s).outcome =
      Spot.argument row (bound + 1) closer.kind s := by
  simp only [Noted.argument, Spot.argument, outcome_visiting]
  refine outcome_silent_bind fun s => outcome_silent_bind fun first => ?_
  cases argumentName? first with
  | none => exact outcome_reader_bind (mirrors (.argumentValue closer) _ _) fun value s => rfl
  | some name =>
    refine outcome_silent_bind fun second => ?_
    split
    · refine outcome_silent_bind fun s => outcome_silent_bind fun s => ?_
      exact outcome_reader_bind (mirrors (.argumentValue closer) _ _) fun value s => rfl
    · exact outcome_reader_bind (mirrors (.argumentValue closer) _ _) fun value s => rfl

theorem outcome_argumentsFrom (closer : Closer) :
    (Noted.argumentsFrom row (bound + 1) inside closer.kind s).outcome =
      Spot.argumentsFrom row (bound + 1) closer.kind s := by
  simp only [Noted.argumentsFrom, Spot.argumentsFrom]
  refine outcome_reader_bind (mirrors (.argument closer) _ _) fun first s => ?_
  refine outcome_silent_bind fun s => outcome_silent_bind fun next => ?_
  split
  · refine outcome_silent_bind fun s => ?_
    exact outcome_reader_bind (mirrors (.argumentsFrom closer) _ _) fun others s => rfl
  · split
    · exact outcome_silent_bind fun s => rfl
    · rfl

theorem outcome_parametersFrom :
    (Noted.parametersFrom row (bound + 1) inside s).outcome =
      Spot.parametersFrom row (bound + 1) s := by
  simp only [Noted.parametersFrom, Spot.parametersFrom]
  refine outcome_silent_bind fun s => outcome_silent_bind fun name => ?_
  split
  · rfl
  · refine outcome_silent_bind fun s => ?_
    refine outcome_reader_bind (mirrors .fallback _ _) fun fallback s => ?_
    refine outcome_silent_bind fun s => outcome_silent_bind fun next => ?_
    split
    · refine outcome_silent_bind fun s => ?_
      exact outcome_reader_bind (mirrors .parametersFrom _ _) fun others s => rfl
    · exact outcome_silent_bind fun s => rfl

omit inside s

theorem mirrors_succ : Mirrors row (bound + 1) := by
  intro task inside s
  cases task with
  | expression power =>
    simp only [Task.note, Task.runSpot, Noted.read, Spot.read, outcome_visiting]
    refine outcome_reader_bind (mirrors .operand _ _) fun left s => ?_
    exact mirrors (.continuation power left) inside s
  | continuation power left => exact outcome_continuation mirrors inside s power left
  | operand => exact outcome_operand mirrors inside s
  | header =>
    simp only [Task.note, Task.runSpot, Noted.header, Spot.header, outcome_visiting]
    refine outcome_silent_bind fun s => ?_
    refine outcome_reader_bind (mirrors.read _ _ _) fun condition s => ?_
    exact outcome_silent_bind fun s => outcome_silent_bind fun s => rfl
  | alternative =>
    simp only [Task.note, Task.runSpot, Noted.alternative, Spot.alternative]
    refine outcome_silent_bind fun ahead => outcome_silent_bind fun next => ?_
    split
    · refine outcome_silent_bind fun behind => outcome_silent_bind fun behind => ?_
      exact outcome_reader_bind (mirrors.read _ _ _) fun branch after => rfl
    · rfl
  | statements terminator =>
    simp only [Task.note, Task.runSpot, Noted.statements, Spot.statements]
    refine outcome_silent_bind fun s => outcome_silent_bind fun next => ?_
    split
    · rfl
    · refine outcome_reader_bind (mirrors.read _ _ _) fun first s => outcome_silent_bind fun _ => ?_
      exact outcome_reader_bind (mirrors (.statements terminator) _ _) fun others s => rfl
  | arguments closer =>
    simp only [Task.note, Task.runSpot, Noted.arguments, Spot.arguments]
    refine outcome_silent_bind fun s => outcome_silent_bind fun next => ?_
    split
    · exact outcome_silent_bind fun s => rfl
    · exact mirrors (.argumentsFrom closer) _ _
  | argumentsFrom closer => exact outcome_argumentsFrom mirrors inside s closer
  | argument closer => exact outcome_argument mirrors inside s closer
  | argumentValue closer =>
    simp only [Task.note, Task.runSpot, Noted.argumentValue, Spot.argumentValue]
    refine outcome_silent_bind fun s => outcome_silent_bind fun next => ?_
    split
    · rfl
    · exact outcome_reader_bind (mirrors.read _ _ _) fun value s => rfl
  | parameters =>
    simp only [Task.note, Task.runSpot, Noted.parameters, Spot.parameters]
    refine outcome_silent_bind fun s => outcome_silent_bind fun next => ?_
    split
    · exact outcome_silent_bind fun s => rfl
    · exact mirrors .parametersFrom _ _
  | parametersFrom => exact outcome_parametersFrom mirrors inside s
  | fallback =>
    simp only [Task.note, Task.runSpot, Noted.fallback, Spot.fallback]
    refine outcome_silent_bind fun s => outcome_silent_bind fun next => ?_
    split
    · refine outcome_silent_bind fun s => ?_
      exact outcome_reader_bind (mirrors.read _ _ _) fun value s => rfl
    · rfl

end Step

/-- **The outcome of a noted call is that of the guarded call.** -/
theorem Task.outcome_note (row : List Lexeme) (bound : Nat) : Mirrors row bound := by
  induction bound with
  | zero => intro task inside s; cases task <;> rfl
  | succ bound ih => exact mirrors_succ ih

theorem outcome_readAll (row : List Lexeme) : (Noted.readAll row).outcome = Spot.readAll row :=
  outcome_reader_bind (Task.outcome_note row _ (.statements .endOfInput) [] _) fun _ _ => rfl

end Expr
end TypeDrift
