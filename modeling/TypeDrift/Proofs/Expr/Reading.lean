import TypeDrift.Expr.Parse
import TypeDrift.Proofs.Expr.Cursor

/-! # Readings

The functions that read expressions call each other with a bound on the depth of the calls.  What
they read when the bound is not met is said here without it: `Reads` is a derivation with one rule
for every way in which one of them can succeed, and a `Task` is a call of one of them, without its
bound and its cursor.

Whatever is read has a derivation (`Task.reads_of_run`), so what holds of all derivations, by
induction along the rules, holds of everything that is read.
-/
namespace TypeDrift

/-- Where a branch behind `else` would begin: inside brackets also on another line, outside of all
brackets only here. -/
def Cursor.beforeElse (c : Cursor) : Cursor :=
  if c.brackets.isEmpty then c else c.skipNewlines

namespace Expr

/-- The brackets that close arguments. -/
inductive Closer where
  | paren
  | bracket
deriving DecidableEq, Repr

def Closer.kind : Closer → Kind
  | paren => .rightParen
  | bracket => .rightBracket

/-- A call of one of the functions that read. -/
inductive Task where
  | expression (power : Nat)
  | continuation (power : Nat) (left : Expr)
  | operand
  | header
  | alternative
  | statements (terminator : Kind)
  | arguments (closer : Closer)
  | argumentsFrom (closer : Closer)
  | argument (closer : Closer)
  | argumentValue (closer : Closer)
  | parameters
  | parametersFrom
  | fallback

namespace Task

/-- What the function answers with, besides the cursor. -/
def Result : Task → Type
  | expression _ | continuation .. | operand | header => Expr
  | alternative | argumentValue _ | fallback => Option Expr
  | statements _ => List Expr
  | arguments _ | argumentsFrom _ => List (Argument Expr)
  | argument _ => Argument Expr
  | parameters | parametersFrom => List (Parameter Expr)

/-- The call, with its bound and its cursor. -/
def run (bound : Nat) : (task : Task) → Cursor → Except Refusal (task.Result × Cursor)
  | expression power => read bound power
  | continuation power left => Expr.continuation bound power left
  | operand => Expr.operand bound
  | header => Expr.header bound
  | alternative => Expr.alternative bound
  | statements terminator => Expr.statements bound terminator
  | arguments closer => Expr.arguments bound closer.kind
  | argumentsFrom closer => Expr.argumentsFrom bound closer.kind
  | argument closer => Expr.argument bound closer.kind
  | argumentValue closer => Expr.argumentValue bound closer.kind
  | parameters => Expr.parameters bound
  | parametersFrom => Expr.parametersFrom bound
  | fallback => Expr.fallback bound

end Task

/-- What is read, from which cursor, and the cursor behind it. -/
inductive Reads : (task : Task) → Cursor → task.Result → Cursor → Prop where
  | expression {power : Nat} {left e : Expr} {c c₁ c₂ : Cursor} (hleft : Reads .operand c left c₁)
      (hmore : Reads (.continuation power left) c₁ e c₂) : Reads (.expression power) c e c₂
  /-- Nothing goes on, or what does binds too loosely. -/
  | done {power : Nat} {left : Expr} {c : Cursor}
      (hloose : ∀ step, Continuation.ofKind? c.settle.head.kind = some step →
        step.leftPower < power) : Reads (.continuation power left) c left c.settle
  | call {power : Nat} {left e : Expr} {given : List (Argument Expr)} {c c₁ c₂ : Cursor}
      (hkind : Continuation.ofKind? c.settle.head.kind = some .call)
      (hpower : power ≤ Continuation.call.leftPower)
      (hgiven : Reads (.arguments .paren) (c.settle.advance.enter .round) given c₁)
      (hmore : Reads (.continuation power (c₁.close left.range.start (.call left given))) c₁ e c₂) :
      Reads (.continuation power left) c e c₂
  | index {power : Nat} {left e : Expr} {given : List (Argument Expr)} {c c₁ c₂ : Cursor}
      (hkind : Continuation.ofKind? c.settle.head.kind = some (.index false))
      (hpower : power ≤ (Continuation.index false).leftPower)
      (hgiven : Reads (.arguments .bracket) (c.settle.advance.enter .round) given c₁)
      (hmore : Reads (.continuation power (c₁.close left.range.start (.index left given false)))
        c₁ e c₂) :
      Reads (.continuation power left) c e c₂
  | doubleIndex {power : Nat} {left e : Expr} {given : List (Argument Expr)} {c c₁ c₂ : Cursor}
      (hkind : Continuation.ofKind? c.settle.head.kind = some (.index true))
      (hpower : power ≤ (Continuation.index true).leftPower)
      (hgiven : Reads (.arguments .bracket) (c.settle.advance.enter .round) given c₁)
      (hclose : c₁.settle.head.kind = .rightBracket)
      (hmore : Reads (.continuation power
        (c₁.settle.advance.close left.range.start (.index left given true)))
        c₁.settle.advance e c₂) :
      Reads (.continuation power left) c e c₂
  | member {power : Nat} {slot : Bool} {left whole e : Expr} {c c₁ c₂ : Cursor}
      (hkind : Continuation.ofKind? c.settle.head.kind = some (.member slot))
      (hpower : power ≤ (Continuation.member slot).leftPower)
      (hmember : readMember left slot c.settle.advance = .ok (whole, c₁))
      (hmore : Reads (.continuation power whole) c₁ e c₂) :
      Reads (.continuation power left) c e c₂
  | between {power : Nat} {level : Level} {left right e : Expr} {c c₁ c₂ : Cursor}
      (hkind : Continuation.ofKind? c.settle.head.kind = some (.between level))
      (hpower : power ≤ (Continuation.between level).leftPower)
      (hright : Reads (.expression level.rightPower) c.settle.advance.skipNewlines right c₁)
      (hmore : Reads (.continuation power (c₁.close left.range.start
        (.between c.settle.head c.settle.index left right))) c₁ e c₂) :
      Reads (.continuation power left) c e c₂
  | leaf {form : Form Expr} {c : Cursor}
      (hopening : Opening.ofLexeme? c.settle.head = some (.leaf form)) :
      Reads .operand c (c.settle.advance.close c.settle.index form) c.settle.advance
  | name {e : Expr} {c c₁ : Cursor} (hopening : Opening.ofLexeme? c.settle.head = some .name)
      (hname : readName c.settle.index c.settle.head c.settle.advance = .ok (e, c₁)) :
      Reads .operand c e c₁
  | paren {inner : Expr} {c c₁ : Cursor} (hopening : Opening.ofLexeme? c.settle.head = some .paren)
      (hinner : Reads (.expression Level.lowest.binding) (c.settle.advance.enter .round) inner c₁)
      (hclose : c₁.settle.head.kind = .rightParen) :
      Reads .operand c (c₁.settle.advance.leave.close c.settle.index (.paren inner))
        c₁.settle.advance.leave
  | block {body : List Expr} {c c₁ : Cursor}
      (hopening : Opening.ofLexeme? c.settle.head = some .block)
      (hbody : Reads (.statements .rightBrace) (c.settle.advance.enter .brace) body c₁) :
      Reads .operand c (c₁.advance.leave.close c.settle.index (.block body)) c₁.advance.leave
  | sign {operator : UnaryOperator} {level : Level} {inner : Expr} {c c₁ : Cursor}
      (hopening : Opening.ofLexeme? c.settle.head = some (.sign operator level))
      (hinner : Reads (.expression level.binding) c.settle.advance.skipNewlines inner c₁) :
      Reads .operand c (c₁.close c.settle.index (.unary operator inner)) c₁
  | tilde {right : Expr} {c c₁ : Cursor} (hopening : Opening.ofLexeme? c.settle.head = some .tilde)
      (hright : Reads (.expression Level.tilde.rightPower) c.settle.advance.skipNewlines right c₁) :
      Reads .operand c (c₁.close c.settle.index (.formula none right)) c₁
  | function {given : List (Parameter Expr)} {body : Expr} {c c₁ c₂ : Cursor}
      (hopening : Opening.ofLexeme? c.settle.head = some .function)
      (hopen : c.settle.advance.settle.head.kind = .leftParen)
      (hgiven : Reads .parameters (c.settle.advance.settle.advance.enter .round) given c₁)
      (hbody : Reads (.expression Level.bodyPower) c₁.skipNewlines body c₂) :
      Reads .operand c (c₂.close c.settle.index (.function given body)) c₂
  | conditional {condition consequent : Expr} {alternative : Option Expr} {c c₁ c₂ c₃ : Cursor}
      (hopening : Opening.ofLexeme? c.settle.head = some .conditional)
      (hcondition : Reads .header c.settle.advance condition c₁)
      (hconsequent : Reads (.expression Level.bodyPower) c₁ consequent c₂)
      (halternative : Reads .alternative c₂ alternative c₃) :
      Reads .operand c (c₃.close c.settle.index (.conditional condition consequent alternative)) c₃
  | forLoop {sequence body : Expr} {c c₁ c₂ c₃ : Cursor}
      (hopening : Opening.ofLexeme? c.settle.head = some .forLoop)
      (hopen : c.settle.advance.settle.head.kind = .leftParen)
      (hinside : c₁ = (c.settle.advance.settle.advance.enter .round).settle)
      (hcounter : c₁.head.kind = .identifier)
      (hin : c₁.advance.settle.head.kind = .keyword .inWord)
      (hsequence : Reads (.expression Level.lowest.binding) c₁.advance.settle.advance sequence c₂)
      (hclose : c₂.settle.head.kind = .rightParen)
      (hbody : Reads (.expression Level.bodyPower) c₂.settle.advance.leave.skipNewlines body c₃) :
      Reads .operand c (c₃.close c.settle.index (.forLoop c₁.head.name sequence body)) c₃
  | whileLoop {condition body : Expr} {c c₁ c₂ : Cursor}
      (hopening : Opening.ofLexeme? c.settle.head = some .whileLoop)
      (hcondition : Reads .header c.settle.advance condition c₁)
      (hbody : Reads (.expression Level.bodyPower) c₁ body c₂) :
      Reads .operand c (c₂.close c.settle.index (.whileLoop condition body)) c₂
  | repeatLoop {body : Expr} {c c₁ : Cursor}
      (hopening : Opening.ofLexeme? c.settle.head = some .repeatLoop)
      (hbody : Reads (.expression Level.bodyPower) c.settle.advance.skipNewlines body c₁) :
      Reads .operand c (c₁.close c.settle.index (.repeatLoop body)) c₁
  | header {condition : Expr} {c c₁ : Cursor} (hopen : c.settle.head.kind = .leftParen)
      (hcondition : Reads (.expression Level.lowest.binding) (c.settle.advance.enter .round)
        condition c₁)
      (hclose : c₁.settle.head.kind = .rightParen) :
      Reads .header c condition c₁.settle.advance.leave.skipNewlines
  | elseBranch {branch : Expr} {c c₁ : Cursor}
      (helse : c.beforeElse.head.kind = .keyword .elseWord)
      (hbranch : Reads (.expression Level.bodyPower) c.beforeElse.advance.skipNewlines branch c₁) :
      Reads .alternative c (some branch) c₁
  | noElse {c : Cursor} (helse : c.beforeElse.head.kind ≠ .keyword .elseWord) :
      Reads .alternative c none c
  | noStatements {terminator : Kind} {c : Cursor} (hend : c.skipSeparators.head.kind = terminator) :
      Reads (.statements terminator) c [] c.skipSeparators
  | statement {terminator : Kind} {first : Expr} {others : List Expr} {c c₁ c₂ : Cursor}
      (hgo : c.skipSeparators.head.kind ≠ terminator)
      (hfirst : Reads (.expression Level.lowest.binding) c.skipSeparators first c₁)
      (hend : expectEnd terminator c₁ = .ok ())
      (hothers : Reads (.statements terminator) c₁ others c₂) :
      Reads (.statements terminator) c (first :: others) c₂
  | noArguments {closer : Closer} {c : Cursor} (hclose : c.settle.head.kind = closer.kind) :
      Reads (.arguments closer) c [] c.settle.advance.leave
  | someArguments {closer : Closer} {given : List (Argument Expr)} {c c₁ : Cursor}
      (hgo : c.settle.head.kind ≠ closer.kind)
      (hgiven : Reads (.argumentsFrom closer) c.settle given c₁) :
      Reads (.arguments closer) c given c₁
  | lastArgument {closer : Closer} {first : Argument Expr} {c c₁ : Cursor}
      (hfirst : Reads (.argument closer) c first c₁)
      (hclose : c₁.settle.head.kind = closer.kind) :
      Reads (.argumentsFrom closer) c [first] c₁.settle.advance.leave
  | moreArguments {closer : Closer} {first : Argument Expr} {others : List (Argument Expr)}
      {c c₁ c₂ : Cursor} (hfirst : Reads (.argument closer) c first c₁)
      (hcomma : c₁.settle.head.kind = .comma)
      (hothers : Reads (.argumentsFrom closer) c₁.settle.advance others c₂) :
      Reads (.argumentsFrom closer) c (first :: others) c₂
  | namedArgument {closer : Closer} {name : String} {value : Option Expr} {c c₁ : Cursor}
      (hname : argumentName? c.settle.head = some name)
      (hequal : c.settle.secondKind? = some .equalAssign)
      (hvalue : Reads (.argumentValue closer) c.settle.advance.settle.advance value c₁) :
      Reads (.argument closer) c ⟨some name, value⟩ c₁
  | plainArgument {closer : Closer} {value : Option Expr} {c c₁ : Cursor}
      (hplain : argumentName? c.settle.head = none ∨ c.settle.secondKind? ≠ some .equalAssign)
      (hvalue : Reads (.argumentValue closer) c.settle value c₁) :
      Reads (.argument closer) c ⟨none, value⟩ c₁
  | noValue {closer : Closer} {c : Cursor}
      (hend : c.settle.head.kind = .comma ∨ c.settle.head.kind = closer.kind) :
      Reads (.argumentValue closer) c none c.settle
  | value {closer : Closer} {value : Expr} {c c₁ : Cursor}
      (hgo : ¬(c.settle.head.kind = .comma ∨ c.settle.head.kind = closer.kind))
      (hvalue : Reads (.expression Level.argumentPower) c.settle value c₁) :
      Reads (.argumentValue closer) c (some value) c₁
  | noParameters {c : Cursor} (hclose : c.settle.head.kind = .rightParen) :
      Reads .parameters c [] c.settle.advance.leave
  | someParameters {given : List (Parameter Expr)} {c c₁ : Cursor}
      (hgo : c.settle.head.kind ≠ .rightParen)
      (hgiven : Reads .parametersFrom c.settle given c₁) : Reads .parameters c given c₁
  | lastParameter {fallback : Option Expr} {c c₁ : Cursor}
      (hname : c.settle.head.kind = .identifier)
      (hfallback : Reads .fallback c.settle.advance fallback c₁)
      (hclose : c₁.settle.head.kind = .rightParen) :
      Reads .parametersFrom c [⟨c.settle.head.name, fallback⟩] c₁.settle.advance.leave
  | moreParameters {fallback : Option Expr} {others : List (Parameter Expr)} {c c₁ c₂ : Cursor}
      (hname : c.settle.head.kind = .identifier)
      (hfallback : Reads .fallback c.settle.advance fallback c₁)
      (hcomma : c₁.settle.head.kind = .comma)
      (hothers : Reads .parametersFrom c₁.settle.advance others c₂) :
      Reads .parametersFrom c (⟨c.settle.head.name, fallback⟩ :: others) c₂
  | fallback {value : Expr} {c c₁ : Cursor} (hequal : c.settle.head.kind = .equalAssign)
      (hvalue : Reads (.expression Level.argumentPower) c.settle.advance value c₁) :
      Reads .fallback c (some value) c₁
  | noFallback {c : Cursor} (hequal : c.settle.head.kind ≠ .equalAssign) :
      Reads .fallback c none c.settle

theorem Reads.of_left {power : Nat} {left left' e : Expr} {c c' : Cursor}
    (h : Reads (.continuation power left) c e c') (hleft : left' = left) :
    Reads (.continuation power left') c e c' := hleft ▸ h

theorem Reads.of_result {task : Task} {result result' : task.Result} {c c' : Cursor}
    (h : Reads task c result c') (hresult : result = result') : Reads task c result' c' :=
  hresult ▸ h

/-! ## What is read has a derivation -/

theorem exists_of_bind_eq_ok {ε α β : Type} {x : Except ε α} {f : α → Except ε β} {b : β}
    (h : x >>= f = .ok b) : ∃ a, x = .ok a ∧ f a = .ok b := by
  cases x with
  | error e => cases h
  | ok a => exact ⟨a, rfl, h⟩

theorem of_expect_bind_eq_ok {α : Type} {kind : Kind} {c : Cursor} {f : Cursor → Except Refusal α}
    {a : α} (h : c.expect kind >>= f = .ok a) :
    c.settle.head.kind = kind ∧ f c.settle.advance = .ok a := by
  simp only [Cursor.expect] at h
  split at h
  · next hkind => exact ⟨hkind, h⟩
  · cases h

theorem alternative_succ (bound : Nat) (c : Cursor) :
    Expr.alternative (bound + 1) c =
      if c.beforeElse.head.kind = .keyword .elseWord then do
        let (branch, c) ← read bound Level.bodyPower c.beforeElse.advance.skipNewlines
        .ok (some branch, c)
      else .ok (none, c) := by
  rw [Expr.alternative]
  rfl

/-- With this bound, whatever is read has a derivation. -/
def Sound (bound : Nat) : Prop :=
  ∀ {task : Task} {c c' : Cursor} {result : task.Result},
    task.run bound c = .ok (result, c') → Reads task c result c'

section Step
variable {bound : Nat} (sound : Sound bound) {c c' : Cursor}
include sound

theorem reads_continuation {power : Nat} {left e : Expr}
    (h : continuation (bound + 1) power left c = .ok (e, c')) :
    Reads (.continuation power left) c e c' := by
  simp only [continuation] at h
  split at h
  · next hnone =>
    cases h
    exact .done fun step hstep => by rw [hnone] at hstep; cases hstep
  · next step hstep =>
    split at h
    · next hloose =>
      cases h
      refine .done fun step' hstep' => ?_
      cases hstep.symm.trans hstep'
      exact hloose
    · next htight =>
      have hpower := Nat.le_of_not_lt htight
      cases step with
      | call =>
        obtain ⟨⟨given, c₁⟩, hgiven, h⟩ := exists_of_bind_eq_ok h
        exact .call hstep hpower (sound hgiven) (sound h)
      | index double =>
        obtain ⟨⟨given, c₁⟩, hgiven, h⟩ := exists_of_bind_eq_ok h
        -- The arguments have taken one bracket already; two of them need another one.
        cases double with
        | false =>
          obtain ⟨_, hsame, h⟩ := exists_of_bind_eq_ok h
          cases hsame
          exact .index hstep hpower (sound hgiven) (sound h)
        | true =>
          obtain ⟨hclose, h⟩ := of_expect_bind_eq_ok h
          exact .doubleIndex hstep hpower (sound hgiven) hclose (sound h)
      | member slot =>
        obtain ⟨⟨whole, c₁⟩, hmember, h⟩ := exists_of_bind_eq_ok h
        exact .member hstep hpower hmember (sound h)
      | between level =>
        obtain ⟨⟨right, c₁⟩, hright, h⟩ := exists_of_bind_eq_ok h
        exact .between hstep hpower (sound hright) (sound h)

theorem reads_operand {e : Expr} (h : operand (bound + 1) c = .ok (e, c')) :
    Reads .operand c e c' := by
  simp only [operand] at h
  -- The openings in their order; nothing begins with what is none of them.
  split at h
  · cases h
  · next hopening => cases h; exact .leaf hopening
  · next hopening => exact .name hopening h
  · next hopening =>
    obtain ⟨⟨inner, c₁⟩, hinner, h⟩ := exists_of_bind_eq_ok h
    obtain ⟨hclose, h⟩ := of_expect_bind_eq_ok h
    cases h
    exact .paren hopening (sound hinner) hclose
  · next hopening =>
    obtain ⟨⟨body, c₁⟩, hbody, h⟩ := exists_of_bind_eq_ok h
    cases h
    exact .block hopening (sound hbody)
  · next hopening =>
    obtain ⟨⟨inner, c₁⟩, hinner, h⟩ := exists_of_bind_eq_ok h
    cases h
    exact .sign hopening (sound hinner)
  · next hopening =>
    obtain ⟨⟨right, c₁⟩, hright, h⟩ := exists_of_bind_eq_ok h
    cases h
    exact .tilde hopening (sound hright)
  · next hopening =>
    obtain ⟨hopen, h⟩ := of_expect_bind_eq_ok h
    obtain ⟨⟨given, c₂⟩, hgiven, h⟩ := exists_of_bind_eq_ok h
    obtain ⟨⟨body, c₃⟩, hbody, h⟩ := exists_of_bind_eq_ok h
    cases h
    exact .function hopening hopen (sound hgiven) (sound hbody)
  · next hopening =>
    obtain ⟨⟨condition, c₁⟩, hcondition, h⟩ := exists_of_bind_eq_ok h
    obtain ⟨⟨consequent, c₂⟩, hconsequent, h⟩ := exists_of_bind_eq_ok h
    obtain ⟨⟨other, c₃⟩, hother, h⟩ := exists_of_bind_eq_ok h
    cases h
    exact .conditional hopening (sound hcondition) (sound hconsequent) (sound hother)
  · next hopening =>
    obtain ⟨hopen, h⟩ := of_expect_bind_eq_ok h
    split at h
    · cases h
    · next hcounter =>
      obtain ⟨hin, h⟩ := of_expect_bind_eq_ok h
      obtain ⟨⟨sequence, c₃⟩, hsequence, h⟩ := exists_of_bind_eq_ok h
      obtain ⟨hclose, h⟩ := of_expect_bind_eq_ok h
      obtain ⟨⟨body, c₅⟩, hbody, h⟩ := exists_of_bind_eq_ok h
      cases h
      exact .forLoop hopening hopen rfl (Decidable.not_not.mp hcounter) hin (sound hsequence)
        hclose (sound hbody)
  · next hopening =>
    obtain ⟨⟨condition, c₁⟩, hcondition, h⟩ := exists_of_bind_eq_ok h
    obtain ⟨⟨body, c₂⟩, hbody, h⟩ := exists_of_bind_eq_ok h
    cases h
    exact .whileLoop hopening (sound hcondition) (sound hbody)
  · next hopening =>
    obtain ⟨⟨body, c₁⟩, hbody, h⟩ := exists_of_bind_eq_ok h
    cases h
    exact .repeatLoop hopening (sound hbody)

theorem reads_alternative {branch : Option Expr}
    (h : Expr.alternative (bound + 1) c = .ok (branch, c')) : Reads .alternative c branch c' := by
  rw [alternative_succ] at h
  split at h
  · next helse =>
    obtain ⟨⟨branch, c₁⟩, hbranch, h⟩ := exists_of_bind_eq_ok h
    cases h
    exact .elseBranch helse (sound hbranch)
  · next helse => cases h; exact .noElse helse

theorem reads_argument {closer : Closer} {given : Argument Expr}
    (h : argument (bound + 1) closer.kind c = .ok (given, c')) :
    Reads (.argument closer) c given c' := by
  simp only [argument] at h
  split at h
  · next name hname =>
    split at h
    · next hequal =>
      obtain ⟨⟨value, c₁⟩, hvalue, h⟩ := exists_of_bind_eq_ok h
      cases h
      exact .namedArgument hname hequal (sound hvalue)
    · next hequal =>
      obtain ⟨⟨value, c₁⟩, hvalue, h⟩ := exists_of_bind_eq_ok h
      cases h
      exact .plainArgument (.inr hequal) (sound hvalue)
  · next hnone =>
    obtain ⟨⟨value, c₁⟩, hvalue, h⟩ := exists_of_bind_eq_ok h
    cases h
    exact .plainArgument (.inl hnone) (sound hvalue)

theorem sound_succ : Sound (bound + 1) := by
  intro task c c' result h
  cases task with
  | expression power =>
    simp only [Task.run, read] at h
    obtain ⟨⟨left, c₁⟩, hleft, h⟩ := exists_of_bind_eq_ok h
    exact .expression (sound hleft) (sound h)
  | continuation power left => exact reads_continuation sound h
  | operand => exact reads_operand sound h
  | header =>
    simp only [Task.run, Expr.header] at h
    obtain ⟨hopen, h⟩ := of_expect_bind_eq_ok h
    obtain ⟨⟨condition, c₂⟩, hcondition, h⟩ := exists_of_bind_eq_ok h
    obtain ⟨hclose, h⟩ := of_expect_bind_eq_ok h
    cases h
    exact .header hopen (sound hcondition) hclose
  | alternative => exact reads_alternative sound h
  | statements terminator =>
    simp only [Task.run, Expr.statements] at h
    split at h
    · next hend => cases h; exact .noStatements hend
    · next hgo =>
      obtain ⟨⟨first, c₁⟩, hfirst, h⟩ := exists_of_bind_eq_ok h
      obtain ⟨_, hend, h⟩ := exists_of_bind_eq_ok h
      obtain ⟨⟨others, c₂⟩, hothers, h⟩ := exists_of_bind_eq_ok h
      cases h
      exact .statement hgo (sound hfirst) hend (sound hothers)
  | arguments closer =>
    simp only [Task.run, Expr.arguments] at h
    split at h
    · next hclose => cases h; exact .noArguments hclose
    · next hgo => exact .someArguments hgo (sound h)
  | argumentsFrom closer =>
    simp only [Task.run, Expr.argumentsFrom] at h
    obtain ⟨⟨first, c₁⟩, hfirst, h⟩ := exists_of_bind_eq_ok h
    split at h
    · next hcomma =>
      obtain ⟨⟨others, c₂⟩, hothers, h⟩ := exists_of_bind_eq_ok h
      cases h
      exact .moreArguments (sound hfirst) hcomma (sound hothers)
    · split at h
      · next hclose => cases h; exact .lastArgument (sound hfirst) hclose
      · cases h
  | argument closer => exact reads_argument sound h
  | argumentValue closer =>
    simp only [Task.run, Expr.argumentValue] at h
    split at h
    · next hend => cases h; exact .noValue hend
    · next hgo =>
      obtain ⟨⟨value, c₁⟩, hvalue, h⟩ := exists_of_bind_eq_ok h
      cases h
      exact .value hgo (sound hvalue)
  | parameters =>
    simp only [Task.run, Expr.parameters] at h
    split at h
    · next hclose => cases h; exact .noParameters hclose
    · next hgo => exact .someParameters hgo (sound h)
  | parametersFrom =>
    simp only [Task.run, Expr.parametersFrom] at h
    split at h
    · cases h
    · next hname =>
      have hname := Decidable.not_not.mp hname
      obtain ⟨⟨fallback, c₁⟩, hfallback, h⟩ := exists_of_bind_eq_ok h
      split at h
      · next hcomma =>
        obtain ⟨⟨others, c₂⟩, hothers, h⟩ := exists_of_bind_eq_ok h
        cases h
        exact .moreParameters hname (sound hfallback) hcomma (sound hothers)
      · obtain ⟨hclose, h⟩ := of_expect_bind_eq_ok h
        -- The reader has settled to look for a comma, and settles again for the parenthesis.
        rw [Cursor.settle_settle] at hclose h
        cases h
        exact .lastParameter hname (sound hfallback) hclose
  | fallback =>
    simp only [Task.run, Expr.fallback] at h
    split at h
    · next hequal =>
      obtain ⟨⟨value, c₁⟩, hvalue, h⟩ := exists_of_bind_eq_ok h
      cases h
      exact .fallback hequal (sound hvalue)
    · next hequal => cases h; exact .noFallback hequal

end Step

theorem sound (bound : Nat) : Sound bound := by
  induction bound with
  | zero =>
    intro task c c' result h
    cases task <;> cases h
  | succ bound ih => exact sound_succ ih

/-- **What is read has a derivation**, whatever the bound. -/
theorem Task.reads_of_run (task : Task) {bound : Nat} {c c' : Cursor} {result : task.Result}
    (h : task.run bound c = .ok (result, c')) : Reads task c result c' := sound bound h

end Expr
end TypeDrift
