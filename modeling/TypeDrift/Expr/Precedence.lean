import TypeDrift.Expr.Basic
import TypeDrift.Token.Lexeme

/-!
Binding powers. How strongly an operator binds is a number, higher for stronger ones. An operator
between two operands has a power towards either of them: towards the operand that stands on the side
to which its level associates it has one more than towards the other, so that of two neighbours of
one level that one goes first. `Level` is the order of R's operators; `Kind.level?` says which
operator is on which level.

A lexeme is met in one of two situations: something may begin with it (`Opening`), or it may go on
with an expression that has been read (`Continuation`).
-/
namespace TypeDrift

/-- The levels of operators, from the loosest to the tightest. -/
inductive Level where
  | lowest
  | help
  | equalAssign
  | leftAssign
  | rightAssign
  | tilde
  | or
  | and
  | not
  | comparison
  | term
  | factor
  | special
  | range
  | unary
  | power
  | member
  | call
deriving DecidableEq, Repr

namespace Level

/-- The lesser of the two powers of a level. -/
def binding : Level → Nat
  | lowest => 0
  | help => 2
  | equalAssign => 4
  | leftAssign => 6
  | rightAssign => 8
  | tilde => 10
  | or => 12
  | and => 14
  | not => 16
  | comparison => 18
  | term => 20
  | factor => 22
  | special => 24
  | range => 26
  | unary => 28
  | power => 30
  | member => 32
  | call => 34

/-- The levels whose operators associate to the right. -/
def isRightward : Level → Bool
  | equalAssign | leftAssign | power => true
  | _ => false

/-- The power towards the operand on the left. -/
def leftPower (level : Level) : Nat :=
  if level.isRightward then level.binding + 1 else level.binding

/-- The power towards the operand on the right. -/
def rightPower (level : Level) : Nat :=
  if level.isRightward then level.binding else level.binding + 1

/-- The power that the value of an argument or of a parameter is read with. It stops before `=`. -/
def argumentPower : Nat := equalAssign.binding + 2

/-- The power that the body of a function, of a branch or of a loop is read with. -/
def bodyPower : Nat := equalAssign.binding

end Level

/-- The level of an operator between two operands. -/
def Kind.level? : Kind → Option Level
  | question => some .help
  | equalAssign => some .equalAssign
  | leftAssign | superAssign | colonAssign => some .leftAssign
  | rightAssign | superRightAssign => some .rightAssign
  | tilde => some .tilde
  | bar | doubleBar => some .or
  | ampersand | doubleAmpersand => some .and
  | equal | notEqual | less | lessEqual | greater | greaterEqual => some .comparison
  | plus | minus => some .term
  | star | slash => some .factor
  | special | pipe => some .special
  | colon => some .range
  | caret => some .power
  | _ => none

/-- What goes on with an expression. -/
inductive Continuation where
  | call
  | index (double : Bool)
  | member (slot : Bool)
  | between (level : Level)
deriving DecidableEq, Repr

namespace Continuation

/-- What a kind of lexeme goes on with. -/
def ofKind? : Kind → Option Continuation
  | .leftParen => some call
  | .leftBracket => some (index false)
  | .doubleLeftBracket => some (index true)
  | .dollar => some (member false)
  | .atSign => some (member true)
  | kind => kind.level?.map between

/-- How strongly it binds what stands before it. -/
def leftPower : Continuation → Nat
  | call | index _ => Level.call.binding
  | member _ => Level.member.binding
  | between level => level.leftPower

end Continuation

/-- The operator on two operands that a lexeme writes, if it binds no name and is no tilde. -/
def BinaryOperator.ofLexeme (lexeme : Lexeme) : BinaryOperator :=
  match lexeme.kind with
  | .question => .help
  | .bar => .or
  | .doubleBar => .orOr
  | .ampersand => .and
  | .doubleAmpersand => .andAnd
  | .equal => .equal
  | .notEqual => .notEqual
  | .less => .less
  | .lessEqual => .lessEqual
  | .greater => .greater
  | .greaterEqual => .greaterEqual
  | .plus => .add
  | .minus => .subtract
  | .star => .multiply
  | .slash => .divide
  | .caret => .power
  | .colon => .range
  | .pipe => .pipe
  | _ => .special lexeme.text

/-- The operator that a kind of lexeme binds names with. -/
def AssignOperator.ofKind? : Kind → Option AssignOperator
  | .leftAssign => some left
  | .superAssign => some superLeft
  | .equalAssign => some equal
  | .rightAssign => some right
  | .superRightAssign => some superRight
  | _ => none

/-- The form that an operator makes of its operands; `place` is the index of the operator. -/
def Form.between {ε : Type} (operator : Lexeme) (place : Nat) (left right : ε) : Form ε :=
  match AssignOperator.ofKind? operator.kind with
  | some binding => .assign binding place left right
  | none =>
    if operator.kind = .tilde then .formula (some left) right
    else .binary (BinaryOperator.ofLexeme operator) left right

theorem Form.children_between {ε : Type} (operator : Lexeme) (place : Nat) (left right : ε) :
    (between operator place left right).children = [left, right] := by
  unfold between
  split
  · rfl
  · split <;> rfl

/-- What begins an expression. -/
inductive Opening where
  /-- An expression of one lexeme. -/
  | leaf (form : Form Expr)
  | name
  | paren
  | block
  | sign (operator : UnaryOperator) (level : Level)
  | tilde
  | function
  | conditional
  | forLoop
  | whileLoop
  | repeatLoop

namespace Opening

/-- What a reserved word begins. -/
def ofKeyword? : Keyword → Option Opening
  | .true => some (leaf (.literal (.logical .true)))
  | .false => some (leaf (.literal (.logical .false)))
  | .null => some (leaf (.literal .null))
  | .na => some (leaf (.literal .na))
  | .naInteger => some (leaf (.literal .naInteger))
  | .naReal => some (leaf (.literal .naReal))
  | .naCharacter => some (leaf (.literal .naCharacter))
  | .inf => some (leaf (.literal .inf))
  | .nan => some (leaf (.literal .nan))
  | .break => some (leaf .breakLoop)
  | .next => some (leaf .nextLoop)
  | .functionWord => some function
  | .ifWord => some conditional
  | .forWord => some forLoop
  | .whileWord => some whileLoop
  | .repeatWord => some repeatLoop
  | .elseWord | .inWord => none

/-- What a lexeme begins, if anything can begin with it. -/
def ofLexeme? (lexeme : Lexeme) : Option Opening :=
  match lexeme.kind with
  | .identifier => some name
  | .integer => some (leaf (.literal (.integer lexeme.text)))
  | .float => some (leaf (.literal (.float lexeme.text)))
  | .complex => some (leaf (.literal (.complex lexeme.text)))
  | .string contents => some (leaf (.literal (.string contents)))
  | .keyword word => ofKeyword? word
  | .leftParen => some paren
  | .leftBrace => some block
  | .minus => some (sign .negate .unary)
  | .plus => some (sign .plus .unary)
  | .bang => some (sign .not .not)
  | .question => some (sign .help .help)
  | .tilde => some tilde
  | .backslash => some function
  | _ => none

end Opening
end TypeDrift
