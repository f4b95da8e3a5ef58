import TypeDrift.Proofs.Expr.Progress
import TypeDrift.Proofs.Expr.Renumber

/-! # Neither the bound nor the first index matters

A call is of the size of the lexemes that are still to come, each counted `callsPerLexeme` times,
and of a rank that says how many more calls can be nested before a lexeme is taken.  Every call that
a call makes is smaller.  So under any two bounds above its size a call does the same: it reads the
same, or refuses the same lexeme.

And it does the same wherever its lexemes stand among others, but for the indices.  Both are said at
once (`Task.run_shift`), because both are seen by following the same two runs side by side.
-/
namespace TypeDrift

open Cursor

/-- A refusal, so much later. -/
def Refusal.shift (distance : Nat) (refusal : Refusal) : Refusal :=
  ⟨refusal.index + distance, refusal.found⟩

namespace Cursor

/-- The same place, if so much more stood before it. -/
def shift (distance : Nat) (c : Cursor) : Cursor :=
  { c with index := c.index + distance, last := c.last + distance }

variable (k : Nat) (c : Cursor)

@[simp] theorem head_shift : (c.shift k).head = c.head := rfl

@[simp] theorem index_shift : (c.shift k).index = c.index + k := rfl

@[simp] theorem brackets_shift : (c.shift k).brackets = c.brackets := rfl

@[simp] theorem secondKind?_shift : (c.shift k).secondKind? = c.secondKind? := rfl

@[simp] theorem refusal_shift : (c.shift k).refusal = c.refusal.shift k := rfl

@[simp] theorem enter_shift (bracket : Bracket) :
    (c.shift k).enter bracket = (c.enter bracket).shift k := rfl

@[simp] theorem leave_shift : (c.shift k).leave = c.leave.shift k := rfl

theorem skipWhile_shift (p : Lexeme → Bool) :
    (c.shift k).skipWhile p = (c.skipWhile p).shift k := by
  simp only [shift, skipWhile, Nat.add_right_comm]

@[simp] theorem skipNewlines_shift : (c.shift k).skipNewlines = c.skipNewlines.shift k :=
  skipWhile_shift k c _

@[simp] theorem skipSeparators_shift : (c.shift k).skipSeparators = c.skipSeparators.shift k :=
  skipWhile_shift k c _

@[simp] theorem settle_shift : (c.shift k).settle = c.settle.shift k := by
  by_cases hends : c.endsAtNewline = true
  · have hsame : (c.shift k).endsAtNewline = true := hends
    simp only [settle, if_pos hends, if_pos hsame]
  · have hsame : ¬(c.shift k).endsAtNewline = true := hends
    simp only [settle, if_neg hends, if_neg hsame, skipNewlines_shift]

@[simp] theorem beforeElse_shift : (c.shift k).beforeElse = c.beforeElse.shift k := by
  simp only [beforeElse, brackets_shift, skipNewlines_shift]
  exact (apply_ite (shift k) _ _ _).symm

@[simp] theorem advance_shift : (c.shift k).advance = c.advance.shift k := by
  obtain ⟨index, rest, last, brackets⟩ := c
  cases rest with
  | nil => rfl
  | cons lexeme rest =>
    by_cases hkind : lexeme.kind = .endOfInput
    · simp only [advance, shift, if_pos hkind]
    · simp only [advance, shift, if_neg hkind, Nat.add_right_comm]

/-- An expression is closed at the shifted indices. -/
theorem close_shift (start : Nat) (form : Form Expr) :
    (c.shift k).close (start + k) (form.map (Expr.renumber (.shift k)) (· + k)) =
      (c.close start form).renumber (.shift k) := by
  rw [close, close, Expr.renumber_node]
  simp only [Renumbering.range, Renumbering.shift, shift, Nat.add_right_comm]

end Cursor

namespace Expr

/-- The outcome of a call, so much later. -/
def shifted {α β : Type} (k : Nat) (f : α → β) :
    Except Refusal (α × Cursor) → Except Refusal (β × Cursor)
  | .ok (result, c) => .ok (f result, c.shift k)
  | .error refusal => .error (refusal.shift k)

theorem bind_shifted {α α' β β' : Type} {k : Nat} {x : Except Refusal (α × Cursor)}
    {x' : Except Refusal (α' × Cursor)} {f : α → α'} {g : β → β'}
    {next : α × Cursor → Except Refusal (β × Cursor)}
    {next' : α' × Cursor → Except Refusal (β' × Cursor)} (h : x' = shifted k f x)
    (hnext : ∀ result c, x = .ok (result, c) →
      next' (f result, c.shift k) = shifted k g (next (result, c))) :
    x' >>= next' = shifted k g (x >>= next) := by
  subst h
  obtain refusal | ⟨result, c⟩ := x
  · rfl
  · exact hnext result c rfl

theorem expect_bind_shifted {β β' : Type} {k : Nat} {kind : Kind} {c : Cursor} {g : β → β'}
    {next : Cursor → Except Refusal (β × Cursor)} {next' : Cursor → Except Refusal (β' × Cursor)}
    (hnext : c.settle.head.kind = kind →
      next' (c.settle.advance.shift k) = shifted k g (next c.settle.advance)) :
    (c.shift k).expect kind >>= next' = shifted k g (c.expect kind >>= next) := by
  simp only [expect, settle_shift, head_shift, advance_shift, refusal_shift]
  split
  · next hkind => exact hnext hkind
  · rfl

theorem expectEnd_bind_shifted {β β' : Type} {k : Nat} {terminator : Kind} {c : Cursor} {g : β → β'}
    {next : Unit → Except Refusal (β × Cursor)} {next' : Unit → Except Refusal (β' × Cursor)}
    (hnext : next' () = shifted k g (next ())) :
    expectEnd terminator (c.shift k) >>= next' = shifted k g (expectEnd terminator c >>= next) := by
  by_cases hend : c.head.kind = .newline ∨ c.head.kind = .semicolon ∨ c.head.kind = terminator
  · have hshifted : expectEnd terminator (c.shift k) = .ok () := if_pos hend
    have hplain : expectEnd terminator c = .ok () := if_pos hend
    rw [hshifted, hplain]
    exact hnext
  · have hshifted : expectEnd terminator (c.shift k) = .error (c.refusal.shift k) := if_neg hend
    have hplain : expectEnd terminator c = .error c.refusal := if_neg hend
    rw [hshifted, hplain]
    rfl

theorem readName_shift (k start : Nat) (first : Lexeme) (c : Cursor) :
    readName (start + k) first (c.shift k) =
      shifted k (renumber (.shift k)) (readName start first c) := by
  simp only [readName, head_shift, advance_shift, settle_shift, refusal_shift]
  split
  · split
    · exact congrArg Except.ok (Prod.ext (close_shift k _ start (.namespaced _ _ _)) rfl)
    · rfl
  · exact congrArg Except.ok (Prod.ext (close_shift k c start (.identifier _)) rfl)

theorem readMember_shift (k : Nat) (left : Expr) (slot : Bool) (c : Cursor) :
    readMember (left.renumber (.shift k)) slot (c.shift k) =
      shifted k (renumber (.shift k)) (readMember left slot c) := by
  simp only [readMember, skipNewlines_shift, head_shift, advance_shift, refusal_shift,
    range_renumber]
  split
  · exact congrArg Except.ok (Prod.ext (close_shift k _ left.range.start (.member left _ slot)) rfl)
  · rfl

namespace Task

/-- How many calls can be nested in a call before a lexeme is taken. -/
def rank : Task → Nat
  | arguments _ => 6
  | argumentsFrom _ => 5
  | argument _ => 4
  | argumentValue _ | statements _ => 3
  | expression _ | parameters => 2
  | operand | parametersFrom => 1
  | continuation .. | header | alternative | fallback => 0

/-- The size of a call. -/
def size (task : Task) (c : Cursor) : Nat := callsPerLexeme * c.rest.length + task.rank

theorem rank_lt_callsPerLexeme (task : Task) : task.rank < callsPerLexeme := by
  cases task <;> simp [rank, callsPerLexeme]

theorem size_lt_of_length_lt {task task' : Task} {c c' : Cursor}
    (h : c'.rest.length < c.rest.length) : task'.size c' < task.size c := by
  have hrank := task'.rank_lt_callsPerLexeme
  simp only [size, callsPerLexeme] at *
  omega

theorem size_lt_of_rank_lt {task task' : Task} {c c' : Cursor}
    (h : c'.rest.length ≤ c.rest.length) (hrank : task'.rank < task.rank) :
    task'.size c' < task.size c := by
  simp only [size, callsPerLexeme]
  omega

/-- A call with other indices. -/
def renumber (numbering : Renumbering) : Task → Task
  | continuation power left => continuation power (left.renumber numbering)
  | task => task

/-- What a call answers with, with other indices. -/
def renumberResult (numbering : Renumbering) :
    (task : Task) → task.Result → (task.renumber numbering).Result
  | expression _ | continuation .. | operand | header => Expr.renumber numbering
  | alternative | argumentValue _ | fallback => Option.map (Expr.renumber numbering)
  | statements _ => List.map (Expr.renumber numbering)
  | arguments _ | argumentsFrom _ => List.map (Argument.map (Expr.renumber numbering))
  | argument _ => Argument.map (Expr.renumber numbering)
  | parameters | parametersFrom => List.map (Parameter.map (Expr.renumber numbering))

end Task

/-- Under two bounds, all calls below a size do the same, so much later. -/
def Alike (size k bound bound' : Nat) : Prop :=
  ∀ {task : Task} {c : Cursor}, task.size c < size →
    (task.renumber (.shift k)).run bound' (c.shift k) =
      shifted k (task.renumberResult (.shift k)) (task.run bound c)

section Step
variable {size k bound bound' : Nat} (alike : Alike size k bound bound')
include alike

/-- A call with fewer lexemes to come, as a step of a call. -/
theorem Alike.shorter {caller : Task} {c c' : Cursor} (hsize : caller.size c ≤ size) (task : Task)
    (h : c'.rest.length < c.rest.length) :
    (task.renumber (.shift k)).run bound' (c'.shift k) =
      shifted k (task.renumberResult (.shift k)) (task.run bound c') :=
  alike (Nat.lt_of_lt_of_le (Task.size_lt_of_length_lt h) hsize)

/-- A call of a lower rank, as a step of a call. -/
theorem Alike.lower {caller : Task} {c c' : Cursor} (hsize : caller.size c ≤ size) (task : Task)
    (h : c'.rest.length ≤ c.rest.length) (hrank : task.rank < caller.rank) :
    (task.renumber (.shift k)).run bound' (c'.shift k) =
      shifted k (task.renumberResult (.shift k)) (task.run bound c') :=
  alike (Nat.lt_of_lt_of_le (Task.size_lt_of_rank_lt h hrank) hsize)

theorem continuation_alike {power : Nat} {left : Expr} {c : Cursor}
    (hsize : (Task.continuation power left).size c ≤ size) :
    continuation (bound' + 1) power (left.renumber (.shift k)) (c.shift k) =
      shifted k (renumber (.shift k)) (continuation (bound + 1) power left c) := by
  -- The call in the end has the lowest rank there is, but comes behind the lexeme that goes on.
  have hmore (e : Expr) {e' : Expr} {c₁ : Cursor} (he : e' = e.renumber (.shift k))
      (h : c₁.rest.length < c.rest.length) :
      continuation bound' power e' (c₁.shift k) =
        shifted k (renumber (.shift k)) (continuation bound power e c₁) :=
    he ▸ alike.shorter hsize (.continuation power e) h
  simp only [continuation, settle_shift, head_shift, advance_shift, enter_shift, range_renumber]
  split
  · rfl
  · next step hstep =>
    have htaken := length_settle_advance_lt (Continuation.kind_ne_endOfInput hstep)
    split
    · rfl
    · cases step with
      | call =>
        refine bind_shifted (alike.shorter hsize (.arguments .paren) htaken) ?_
        intro given c₁ hgiven
        have hreads := (Task.arguments .paren).reads_of_run hgiven
        exact hmore _ (close_shift k c₁ _ (.call left given))
          (Nat.lt_of_le_of_lt hreads.reaches.length_le htaken)
      | index double =>
        refine bind_shifted (alike.shorter hsize (.arguments .bracket) htaken) ?_
        intro given c₁ hgiven
        have hreads := (Task.arguments .bracket).reads_of_run hgiven
        have hlength := Nat.lt_of_le_of_lt hreads.reaches.length_le htaken
        cases double with
        | false => exact hmore _ (close_shift k c₁ _ (.index left given false)) hlength
        | true =>
          refine expect_bind_shifted fun _ => hmore _
            (close_shift k _ left.range.start (.index left given true)) ?_
          exact Nat.lt_of_le_of_lt (reaches_settle_advance c₁).length_le hlength
      | member slot =>
        refine bind_shifted (readMember_shift k left slot _) ?_
        intro whole c₁ hmember
        exact hmore _ rfl
          (Nat.lt_of_le_of_lt (Reads.reaches_readMember hmember).length_le htaken)
      | between level =>
        have hskip := Nat.lt_of_le_of_lt (reaches_skipNewlines c.settle.advance).length_le htaken
        rw [skipNewlines_shift]
        refine bind_shifted (alike.shorter hsize (.expression level.rightPower) hskip) ?_
        intro right c₁ hright
        have hreads := (Task.expression level.rightPower).reads_of_run hright
        refine hmore _ ?_ (Nat.lt_of_le_of_lt hreads.reaches.length_le hskip)
        rw [← close_shift, Form.map_between]
        rfl

theorem operand_alike {c : Cursor} (hsize : Task.operand.size c ≤ size) :
    operand (bound' + 1) (c.shift k) =
      shifted k (renumber (.shift k)) (operand (bound + 1) c) := by
  have hread (task : Task) {c₁ : Cursor} (h : c₁.rest.length < c.rest.length) :
      (task.renumber (.shift k)).run bound' (c₁.shift k) =
        shifted k (task.renumberResult (.shift k)) (task.run bound c₁) :=
    alike.shorter hsize task h
  have hbehind (task : Task) {result : task.Result} {c₁ c₂ : Cursor}
      (h : c₁.rest.length < c.rest.length) (hrun : task.run bound c₁ = .ok (result, c₂)) :
      c₂.rest.length < c.rest.length :=
    Nat.lt_of_le_of_lt (task.reads_of_run hrun).reaches.length_le h
  have hskip {c₁ : Cursor} (h : c₁.rest.length < c.rest.length) :
      c₁.skipNewlines.rest.length < c.rest.length :=
    Nat.lt_of_le_of_lt (reaches_skipNewlines c₁).length_le h
  have htake {c₁ : Cursor} (h : c₁.rest.length < c.rest.length) :
      c₁.settle.advance.rest.length < c.rest.length :=
    Nat.lt_of_le_of_lt (reaches_settle_advance c₁).length_le h
  have hclose (c₁ : Cursor) (form : Form Expr) {form' : Form Expr}
      (hform : form' = form.map (renumber (.shift k)) (· + k)) :
      Except.ok ((c₁.shift k).close (c.settle.index + k) form', c₁.shift k) =
        shifted k (renumber (.shift k)) (.ok (c₁.close c.settle.index form, c₁)) := by
    subst hform
    exact congrArg Except.ok (Prod.ext (close_shift k c₁ _ form) rfl)
  have htaken {opening : Opening} (h : Opening.ofLexeme? c.settle.head = some opening) :
      c.settle.advance.rest.length < c.rest.length :=
    length_settle_advance_lt (Opening.kind_ne_endOfInput h)
  simp only [operand, settle_shift, head_shift, index_shift, advance_shift, enter_shift,
    skipNewlines_shift]
  -- The openings in their order. Every call comes behind the opening, with fewer lexemes to come.
  split
  · rfl
  · next form hopening => exact hclose _ form (Opening.map_leaf _ _ hopening).symm
  · exact readName_shift k _ _ _
  · next hopening =>
    refine bind_shifted (hread (.expression _) (htaken hopening)) ?_
    intro inner c₁ _
    exact expect_bind_shifted fun _ => hclose (leave _) (.paren inner) rfl
  · next hopening =>
    refine bind_shifted (hread (.statements .rightBrace) (htaken hopening)) ?_
    intro body c₁ _
    rw [advance_shift, leave_shift]
    exact hclose _ (.block body) rfl
  · next operator level hopening =>
    refine bind_shifted (hread (.expression _) (hskip (htaken hopening))) ?_
    intro inner c₁ _
    exact hclose _ (.unary operator inner) rfl
  · next hopening =>
    refine bind_shifted (hread (.expression _) (hskip (htaken hopening))) ?_
    intro right c₁ _
    exact hclose _ (.formula none right) rfl
  · next hopening =>
    refine expect_bind_shifted fun _ => ?_
    have hopen : (c.settle.advance.settle.advance.enter .round).rest.length < c.rest.length :=
      htake (htaken hopening)
    rw [enter_shift]
    refine bind_shifted (hread .parameters hopen) ?_
    intro given c₁ hgiven
    rw [skipNewlines_shift]
    refine bind_shifted (hread (.expression _) (hskip (hbehind .parameters hopen hgiven))) ?_
    intro body c₂ _
    exact hclose _ (.function given body) rfl
  · next hopening =>
    refine bind_shifted (hread .header (htaken hopening)) ?_
    intro condition c₁ hcondition
    have hfirst := hbehind .header (htaken hopening) hcondition
    refine bind_shifted (hread (.expression _) hfirst) ?_
    intro consequent c₂ hconsequent
    have hsecond := hbehind (.expression _) hfirst hconsequent
    refine bind_shifted (hread .alternative hsecond) ?_
    intro other c₃ _
    exact hclose _ (.conditional condition consequent other) rfl
  · next hopening =>
    refine expect_bind_shifted fun _ => ?_
    have hopen : (c.settle.advance.settle.advance.enter .round).rest.length < c.rest.length :=
      htake (htaken hopening)
    simp only [enter_shift, settle_shift, head_shift, advance_shift, refusal_shift]
    split
    · rfl
    · refine expect_bind_shifted fun _ => ?_
      have hcounter := htake (htake hopen)
      refine bind_shifted (hread (.expression _) hcounter) ?_
      intro sequence c₁ hsequence
      have hinside : c₁.settle.advance.leave.rest.length < c.rest.length :=
        htake (hbehind (.expression _) hcounter hsequence)
      refine expect_bind_shifted fun _ => ?_
      rw [leave_shift, skipNewlines_shift]
      refine bind_shifted (hread (.expression _) (hskip hinside)) ?_
      intro body c₂ _
      exact hclose _ (.forLoop _ sequence body) rfl
  · next hopening =>
    refine bind_shifted (hread .header (htaken hopening)) ?_
    intro condition c₁ hcondition
    have hfirst := hbehind .header (htaken hopening) hcondition
    refine bind_shifted (hread (.expression _) hfirst) ?_
    intro body c₂ _
    exact hclose _ (.whileLoop condition body) rfl
  · next hopening =>
    refine bind_shifted (hread (.expression _) (hskip (htaken hopening))) ?_
    intro body c₁ _
    exact hclose _ (.repeatLoop body) rfl

theorem statements_alike {terminator : Kind} {c : Cursor}
    (hsize : (Task.statements terminator).size c ≤ size) :
    statements (bound' + 1) terminator (c.shift k) =
      shifted k (List.map (renumber (.shift k))) (statements (bound + 1) terminator c) := by
  have hskip := (reaches_skipSeparators c).length_le
  simp only [statements, skipSeparators_shift, head_shift]
  split
  · rfl
  · refine bind_shifted (alike.lower hsize (.expression _) hskip (by simp [Task.rank])) ?_
    intro first c₁ hfirst
    have hlength := Nat.lt_of_lt_of_le (((Task.expression _).reads_of_run hfirst).length_lt rfl)
      hskip
    refine expectEnd_bind_shifted ?_
    refine bind_shifted (alike.shorter hsize (.statements terminator) hlength) ?_
    intro others c₂ _
    rfl

theorem argumentsFrom_alike {closer : Closer} {c : Cursor}
    (hsize : (Task.argumentsFrom closer).size c ≤ size) :
    argumentsFrom (bound' + 1) closer.kind (c.shift k) =
      shifted k (List.map (Argument.map (renumber (.shift k))))
        (argumentsFrom (bound + 1) closer.kind c) := by
  simp only [argumentsFrom]
  refine bind_shifted (alike.lower hsize (.argument closer) (Nat.le_refl _) (by simp [Task.rank])) ?_
  intro first c₁ hfirst
  have hlength := ((Task.argument closer).reads_of_run hfirst).reaches.length_le
  simp only [settle_shift, head_shift, advance_shift, leave_shift, refusal_shift]
  split
  · next hcomma =>
    have htaken : c₁.settle.advance.rest.length < c₁.rest.length :=
      length_settle_advance_lt (by rw [hcomma]; decide)
    refine bind_shifted (alike.shorter hsize (.argumentsFrom closer)
      (Nat.lt_of_lt_of_le htaken hlength)) ?_
    intro others c₂ _
    rfl
  · split <;> rfl

theorem argument_alike {closer : Closer} {c : Cursor}
    (hsize : (Task.argument closer).size c ≤ size) :
    argument (bound' + 1) closer.kind (c.shift k) =
      shifted k (Argument.map (renumber (.shift k))) (argument (bound + 1) closer.kind c) := by
  have hvalue {c₁ : Cursor} (h : c.Reaches c₁) :=
    alike.lower hsize (.argumentValue closer) h.length_le (by simp [Task.rank])
  simp only [argument, settle_shift, head_shift, advance_shift, secondKind?_shift]
  split
  · split
    · exact bind_shifted (hvalue ((reaches_settle_advance c).trans (reaches_settle_advance _)))
        fun _ _ _ => rfl
    · exact bind_shifted (hvalue (reaches_settle c)) fun _ _ _ => rfl
  · exact bind_shifted (hvalue (reaches_settle c)) fun _ _ _ => rfl

theorem parametersFrom_alike {c : Cursor} (hsize : Task.parametersFrom.size c ≤ size) :
    parametersFrom (bound' + 1) (c.shift k) =
      shifted k (List.map (Parameter.map (renumber (.shift k)))) (parametersFrom (bound + 1) c) := by
  simp only [parametersFrom, settle_shift, head_shift, advance_shift, refusal_shift]
  split
  · rfl
  · next hname =>
    have htaken : c.settle.advance.rest.length < c.rest.length :=
      length_settle_advance_lt (by rw [Decidable.not_not.mp hname]; decide)
    refine bind_shifted (alike.shorter hsize .fallback htaken) ?_
    intro fallback c₁ hfallback
    have hlength := Nat.lt_of_le_of_lt (Task.fallback.reads_of_run hfallback).reaches.length_le
      htaken
    simp only [settle_shift, head_shift, advance_shift]
    split
    · have hcomma := Nat.lt_of_le_of_lt (reaches_settle_advance c₁).length_le hlength
      refine bind_shifted (alike.shorter hsize .parametersFrom hcomma) ?_
      intro others c₂ _
      rfl
    · exact expect_bind_shifted fun _ => rfl

theorem alike_succ : Alike (size + 1) k (bound + 1) (bound' + 1) := by
  intro task c hsize
  have hsize := Nat.le_of_lt_succ hsize
  cases task with
  | expression power =>
    simp only [Task.renumber, Task.run, read]
    refine bind_shifted (alike.lower hsize .operand (Nat.le_refl _) (by simp [Task.rank])) ?_
    intro left c₁ hleft
    have hlength := (Task.operand.reads_of_run hleft).length_lt rfl
    exact alike.shorter hsize (.continuation power left) hlength
  | continuation power left => exact continuation_alike alike hsize
  | operand => exact operand_alike alike hsize
  | header =>
    simp only [Task.renumber, Task.run, Expr.header]
    refine expect_bind_shifted fun hopen => ?_
    have htaken : c.settle.advance.rest.length < c.rest.length :=
      length_settle_advance_lt (by rw [hopen]; decide)
    rw [enter_shift]
    refine bind_shifted (alike.shorter hsize (.expression _) htaken) ?_
    intro condition c₁ _
    exact expect_bind_shifted fun _ => by rw [leave_shift, skipNewlines_shift]; rfl
  | alternative =>
    simp only [Task.renumber, Task.run, alternative_succ, beforeElse_shift, head_shift,
      advance_shift, skipNewlines_shift]
    split
    · next helse =>
      have htaken : c.beforeElse.advance.rest.length < c.beforeElse.rest.length :=
        length_advance_lt (by rw [helse]; decide)
      have hlength := Nat.lt_of_le_of_lt (reaches_skipNewlines c.beforeElse.advance).length_le
        (Nat.lt_of_lt_of_le htaken (reaches_beforeElse c).length_le)
      refine bind_shifted (alike.shorter hsize (.expression _) hlength) ?_
      intro branch c₁ _
      rfl
    · rfl
  | statements terminator => exact statements_alike alike hsize
  | arguments closer =>
    simp only [Task.renumber, Task.run, Expr.arguments, settle_shift, head_shift, advance_shift,
      leave_shift]
    split
    · rfl
    · exact alike.lower hsize (.argumentsFrom closer) (reaches_settle c).length_le
        (by simp [Task.rank])
  | argumentsFrom closer => exact argumentsFrom_alike alike hsize
  | argument closer => exact argument_alike alike hsize
  | argumentValue closer =>
    simp only [Task.renumber, Task.run, Expr.argumentValue, settle_shift, head_shift]
    split
    · rfl
    · refine bind_shifted (alike.lower hsize (.expression _) (reaches_settle c).length_le
        (by simp [Task.rank])) ?_
      intro value c₁ _
      rfl
  | parameters =>
    simp only [Task.renumber, Task.run, Expr.parameters, settle_shift, head_shift, advance_shift,
      leave_shift]
    split
    · rfl
    · exact alike.lower hsize .parametersFrom (reaches_settle c).length_le (by simp [Task.rank])
  | parametersFrom => exact parametersFrom_alike alike hsize
  | fallback =>
    simp only [Task.renumber, Task.run, Expr.fallback, settle_shift, head_shift, advance_shift]
    split
    · next hequal =>
      have htaken : c.settle.advance.rest.length < c.rest.length :=
        length_settle_advance_lt (by rw [hequal]; decide)
      refine bind_shifted (alike.shorter hsize (.expression _) htaken) ?_
      intro value c₁ _
      rfl
    · rfl

end Step

theorem alike (size k bound bound' : Nat) (h : size ≤ bound) (h' : size ≤ bound') :
    Alike size k bound bound' := by
  induction size generalizing bound bound' with
  | zero => exact fun hsize => absurd hsize (Nat.not_lt_zero _)
  | succ size ih =>
    cases bound with
    | zero => exact absurd h (Nat.not_succ_le_zero _)
    | succ bound =>
      cases bound' with
      | zero => exact absurd h' (Nat.not_succ_le_zero _)
      | succ bound' =>
        exact alike_succ (ih bound bound' (Nat.le_of_succ_le_succ h) (Nat.le_of_succ_le_succ h'))

namespace Task

/-- **A call does the same wherever its lexemes stand**, under all bounds above its size. -/
theorem run_shift {task : Task} {c : Cursor} {bound bound' : Nat} (k : Nat)
    (h : task.size c < bound) (h' : task.size c < bound') :
    (task.renumber (.shift k)).run bound' (c.shift k) =
      shifted k (task.renumberResult (.shift k)) (task.run bound c) :=
  alike (task.size c + 1) k bound bound' h h' (Nat.lt_succ_self _)

end Task
end Expr
end TypeDrift
