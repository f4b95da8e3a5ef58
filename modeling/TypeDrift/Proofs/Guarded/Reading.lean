import TypeDrift.Proofs.Expr.Shift
import TypeDrift.Proofs.Guarded.Parse

/-! # Guarded reading follows reading

A guarded call from the spot of a standing cursor has the outcome of the call from the cursor
(`Task.runSpot_eq`): it reads the same and stops at the spot where the other stops, or it refuses the
same lexeme.  No index is out of range, and the bound is not used up.

The induction is on the bound, for all calls of a smaller size.  What has been read shows that the
next call is smaller and begins at a standing cursor again.  An expression that is closed ends with
the lexeme taken last, and its range is not empty (`Reads.laysOut`), so both its ends lie in the row;
where an expression goes on with the one before it, that one begins no later than the lexeme taken
last (`Cursor.GoesOn`).
-/
namespace TypeDrift

open Guarded

namespace Cursor

/-- A standing place with fewer lexemes to come. -/
structure Shorter (row : List Lexeme) (c d : Cursor) : Prop where
  length_lt : d.rest.length < c.rest.length
  standing : d.Standing row

namespace Shorter

variable {row : List Lexeme} {c d e : Cursor} (h : c.Shorter row d)
include h

theorem of_reaches (hreach : d.Reaches e) : c.Shorter row e :=
  ⟨Nat.lt_of_le_of_lt hreach.length_le h.length_lt, h.standing.of_reaches hreach⟩

theorem settle_advance : c.Shorter row d.settle.advance := h.of_reaches (reaches_settle_advance d)

theorem skipNewlines : c.Shorter row d.skipNewlines := h.of_reaches (reaches_skipNewlines d)

theorem enter (bracket : Bracket) : c.Shorter row (d.enter bracket) :=
  ⟨h.length_lt, h.standing.enter bracket⟩

theorem leave : c.Shorter row d.leave := ⟨h.length_lt, h.standing.leave⟩

end Shorter

/-- A place behind an expression that may go on here: what was taken last lies before it, and the
expression begins no later. -/
structure GoesOn (row : List Lexeme) (left : Expr) (c : Cursor) : Prop where
  behind : c.Behind row
  start_le : left.range.start ≤ c.last

/-- Behind whatever was read in between, an expression with the same start may go on. -/
theorem GoesOn.further {row : List Lexeme} {left e : Expr} {c d : Cursor} (h : c.GoesOn row left)
    (hbehind : d.Behind row) (hstart : e.range.start = left.range.start) (hle : c.index ≤ d.last) :
    d.GoesOn row e := by
  refine ⟨hbehind, ?_⟩
  have hlt := h.behind.last_lt
  have hle' := h.start_le
  omega

theorem GoesOn.close_spot {ε : Type} {row : List Lexeme} {left : Expr} {c : Cursor}
    (h : c.GoesOn row left) (form : Form Expr) :
    (c.spot.close row left.range.start form : Guarded ε Expr) =
      .ok (c.close left.range.start form) := h.behind.close_spot h.start_le form

end Cursor

namespace Expr

open Cursor

variable {row : List Lexeme}

/-- The outcome of a call, without what is still to come. -/
def spotted {α : Type} : Except Refusal (α × Cursor) → Guarded Refusal (α × Spot)
  | .ok (result, c) => .ok (result, c.spot)
  | .error refusal => .error (.refused refusal)

theorem bind_spotted {α β : Type} {x : Except Refusal (α × Cursor)}
    {x' : Guarded Refusal (α × Spot)} {next : α × Cursor → Except Refusal (β × Cursor)}
    {next' : α × Spot → Guarded Refusal (β × Spot)} (h : x' = spotted x)
    (hnext : ∀ result c, x = .ok (result, c) →
      next' (result, c.spot) = spotted (next (result, c))) :
    x' >>= next' = spotted (x >>= next) := by
  subst h
  obtain refusal | ⟨result, c⟩ := x
  · rfl
  · exact hnext result c rfl

theorem expect_bind_spotted {β : Type} {kind : Kind} {c : Cursor} (h : c.Standing row)
    {next : Cursor → Except Refusal (β × Cursor)} {next' : Spot → Guarded Refusal (β × Spot)}
    (hnext : c.settle.head.kind = kind →
      next' c.settle.advance.spot = spotted (next c.settle.advance)) :
    c.spot.expect row kind >>= next' = spotted (c.expect kind >>= next) := by
  simp only [Spot.expect, h.settle_spot, ok_bind, h.settle.head, expect]
  by_cases hkind : c.settle.head.kind = kind
  · rw [if_pos hkind, if_pos hkind, h.settle.advance_spot, settle_settle]
    exact hnext hkind
  · rw [if_neg hkind, if_neg hkind, h.settle.refuse_spot]
    rfl

theorem expectEnd_bind_spotted {β : Type} {terminator : Kind} {c : Cursor} (h : c.Standing row)
    {next : Unit → Except Refusal (β × Cursor)} {next' : Unit → Guarded Refusal (β × Spot)}
    (hnext : next' () = spotted (next ())) :
    c.spot.expectEnd row terminator >>= next' = spotted (expectEnd terminator c >>= next) := by
  simp only [Spot.expectEnd, h.head, ok_bind, expectEnd]
  by_cases hend : c.head.kind = .newline ∨ c.head.kind = .semicolon ∨ c.head.kind = terminator
  · rw [if_pos hend, if_pos hend]
    exact hnext
  · rw [if_neg hend, if_neg hend, h.refuse_spot]
    rfl

theorem beforeElse_spot {c : Cursor} (h : c.Standing row) :
    c.spot.beforeElse row = .ok c.beforeElse.spot := by
  rw [Spot.beforeElse, brackets_spot, beforeElse]
  by_cases hempty : c.brackets.isEmpty = true
  · have hnone : c.brackets = [] := List.isEmpty_iff.mp hempty
    rw [if_pos hempty, if_pos hempty, h.settle_spot, settle_eq_self (by simp [hnone])]
  · rw [if_neg hempty, if_neg hempty, h.skipNewlines_spot, ok_bind, h.skipNewlines.settle_spot,
      settle_skipNewlines]

/-- What is read begins no later than with the lexeme taken last. -/
theorem ReadFrom.start_le_last {start : Nat} {e : Expr} {c : Cursor} (h : ReadFrom row start e c) :
    start ≤ c.last := by
  have hnonempty := (tiled_iff.mp h.tiled).1.nonempty
  rw [h.start, h.stop] at hnonempty
  exact Nat.le_of_lt_succ hnonempty

/-- An expression that is laid out is closed in the row. -/
theorem ReadFrom.close_spot {start : Nat} {form : Form Expr} {c : Cursor}
    (h : ReadFrom row start (c.close start form) c) :
    (c.spot.close row start form >>= fun e => .ok (e, c.spot)) =
      spotted (.ok (c.close start form, c)) := by
  rw [h.behind.close_spot h.start_le_last, ok_bind]
  rfl

/-! ## Names and members -/

theorem readName_spotted {start : Nat} {first : Lexeme} {c : Cursor} (h : c.Standing row)
    (hreads : ∀ e c', readName start first c = .ok (e, c') → ReadFrom row start e c') :
    c.spot.readName row start first = spotted (readName start first c) := by
  simp only [Spot.readName, h.head, ok_bind]
  by_cases hcolons : (c.head.kind == .doubleColon || c.head.kind == .tripleColon) = true
  · have hsettle : c.settle = c := by
      refine settle_of_head fun hnewline => ?_
      rw [hnewline] at hcolons
      cases hcolons
    have hbehind : c.advance.Standing row := h.of_reaches (reaches_advance c)
    rw [if_pos hcolons, h.advance_spot, hsettle]
    simp only [ok_bind, hbehind.settle_spot, hbehind.settle.head, hbehind.settle_advance_spot,
      hbehind.settle.refuse_spot]
    cases hname : memberName? c.advance.settle.head false with
    | none =>
      have hread : readName start first c = .error c.advance.settle.refusal := by
        simp only [readName, if_pos hcolons, hname]
      rw [hread]
      rfl
    | some name =>
      have hread : readName start first c = .ok (c.advance.settle.advance.close start
          (.namespaced first.name name (c.head.kind == .tripleColon)), c.advance.settle.advance) := by
        simp only [readName, if_pos hcolons, hname]
      rw [hread]
      exact (hreads _ _ hread).close_spot
  · have hread : readName start first c = .ok (c.close start (.identifier first.name), c) := by
      simp only [readName, if_neg hcolons]
    rw [if_neg hcolons, hread]
    exact (hreads _ _ hread).close_spot

/-- A member is read behind the expression that it is a member of. -/
theorem goesOn_readMember {left whole : Expr} {slot : Bool} {c c' : Cursor} {place : Nat}
    {d : Cursor} (hleft : c.GoesOn row left) (took : Took row c place d)
    (h : readMember left slot d = .ok (whole, c')) : c'.GoesOn row whole := by
  obtain ⟨name, hname, rfl, rfl⟩ := readMember_eq_ok_iff.mp h
  obtain ⟨-, hbehind, hlast⟩ :=
    took.behind.skipNewlines.inRow.advance (isTrivia_of_memberName? hname)
  refine hleft.further hbehind rfl ?_
  have hle := took.le
  have hlt := took.skipNewlines.lt_index
  omega

theorem readMember_spotted {left : Expr} {slot : Bool} {c : Cursor} (h : c.Standing row)
    (hreads : ∀ whole c', readMember left slot c = .ok (whole, c') → c'.GoesOn row left) :
    c.spot.readMember row left slot = spotted (readMember left slot c) := by
  have htaken := h.skipNewlines.advance_spot (ε := Refusal)
  rw [settle_skipNewlines] at htaken
  simp only [Spot.readMember, h.skipNewlines_spot, ok_bind, h.skipNewlines.head, htaken,
    h.skipNewlines.refuse_spot]
  cases hname : memberName? c.skipNewlines.head true with
  | none =>
    have hread : readMember left slot c = .error c.skipNewlines.refusal := by
      simp only [readMember, hname]
    rw [hread]
    rfl
  | some name =>
    have hread : readMember left slot c = .ok (c.skipNewlines.advance.close left.range.start
        (.member left name slot), c.skipNewlines.advance) := by
      simp only [readMember, hname]
    rw [hread]
    simp only [(hreads _ _ hread).close_spot, ok_bind]
    rfl

/-! ## All calls -/

namespace Task

/-- The guarded call, with its bound. -/
def runSpot (row : List Lexeme) (bound : Nat) :
    (task : Task) → Spot → Guarded Refusal (task.Result × Spot)
  | expression power => Spot.read row bound power
  | continuation power left => Spot.continuation row bound power left
  | operand => Spot.operand row bound
  | header => Spot.header row bound
  | alternative => Spot.alternative row bound
  | statements terminator => Spot.statements row bound terminator
  | arguments closer => Spot.arguments row bound closer.kind
  | argumentsFrom closer => Spot.argumentsFrom row bound closer.kind
  | argument closer => Spot.argument row bound closer.kind
  | argumentValue closer => Spot.argumentValue row bound closer.kind
  | parameters => Spot.parameters row bound
  | parametersFrom => Spot.parametersFrom row bound
  | fallback => Spot.fallback row bound

/-- Most calls go on with nothing. -/
theorem no_left {task : Task} (h : task.left? = none) {p : Expr → Prop} :
    ∀ left ∈ task.left?, p left := by
  intro left hleft
  rw [h] at hleft
  cases hleft

end Task

/-- With this bound, guarded calls below its size follow. -/
def Tracks (row : List Lexeme) (bound : Nat) : Prop :=
  ∀ {task : Task} {c : Cursor}, task.size c < bound → c.Standing row →
    (∀ left ∈ task.left?, c.GoesOn row left) →
    task.runSpot row bound c.spot = spotted (task.run bound c)

section Step
variable {bound : Nat} (tracks : Tracks row bound) {c : Cursor} (h : c.Standing row)
include tracks

/-- A call with fewer lexemes to come, as a step of a call. -/
theorem Tracks.shorter {caller : Task} {c c' : Cursor} (hsize : caller.size c ≤ bound) (task : Task)
    (h : c.Shorter row c') (hleft : task.left? = none) :
    task.runSpot row bound c'.spot = spotted (task.run bound c') :=
  tracks (Nat.lt_of_lt_of_le (Task.size_lt_of_length_lt h.length_lt) hsize) h.standing
    (Task.no_left hleft)

/-- A call that goes on with an expression, with fewer lexemes to come. -/
theorem Tracks.goOn {caller : Task} {c c' : Cursor} (hsize : caller.size c ≤ bound) (power : Nat)
    {left : Expr} (h : c.Shorter row c') (hgoes : c'.GoesOn row left) :
    Spot.continuation row bound power left c'.spot = spotted (continuation bound power left c') := by
  have hsmaller : (Task.continuation power left).size c' < bound :=
    Nat.lt_of_lt_of_le (Task.size_lt_of_length_lt h.length_lt) hsize
  exact tracks hsmaller h.standing fun _ hmem => Option.some.inj hmem ▸ hgoes

/-- A call of a lower rank, as a step of a call. -/
theorem Tracks.lower {caller : Task} {c c' : Cursor} (hsize : caller.size c ≤ bound) (task : Task)
    (hreach : c.Reaches c') (hrank : task.rank < caller.rank) (h : c'.Standing row)
    (hleft : task.left? = none) :
    task.runSpot row bound c'.spot = spotted (task.run bound c') :=
  tracks (Nat.lt_of_lt_of_le (Task.size_lt_of_rank_lt hreach.length_le hrank) hsize) h
    (Task.no_left hleft)

include h

theorem continuation_spotted {power : Nat} {left : Expr}
    (hsize : (Task.continuation power left).size c ≤ bound) (hgoes : c.GoesOn row left) :
    Spot.continuation row (bound + 1) power left c.spot =
      spotted (continuation (bound + 1) power left c) := by
  simp only [Spot.continuation, continuation, h.settle_spot, ok_bind, h.settle.head,
    h.settle_advance_spot, enter_spot, current_spot]
  cases hstep : Continuation.ofKind? c.settle.head.kind with
  | none => rfl
  | some step =>
    have htaken : c.Shorter row c.settle.advance :=
      ⟨length_settle_advance_lt (Continuation.kind_ne_endOfInput hstep), h.settle_advance⟩
    have took : Took row c c.settle.index c.settle.advance :=
      h.inRow.took (Continuation.isTrivia_eq_false hstep)
    have hopen := htaken.enter .round
    have hle := took.le
    have hlt := took.lt_index
    simp only
    split
    · rfl
    · cases step with
      | call =>
        refine bind_spotted (tracks.shorter hsize (.arguments .paren) hopen rfl) ?_
        intro given c₁ hgiven
        have hreads := (Task.arguments .paren).reads_of_run hgiven
        obtain ⟨hlaid, hbehind⟩ := hreads.laysOut hopen.standing.inRow
        have hinside : c.settle.advance.index ≤ c₁.last := hlaid.le
        have hgoes₁ : c₁.GoesOn row left := hgoes.further hbehind rfl (by omega)
        simp only [hgoes₁.close_spot, ok_bind]
        exact tracks.goOn hsize power (hopen.of_reaches hreads.reaches)
          (hgoes.further hbehind rfl (by omega))
      | index double =>
        refine bind_spotted (tracks.shorter hsize (.arguments .bracket) hopen rfl) ?_
        intro given c₁ hgiven
        have hreads := (Task.arguments .bracket).reads_of_run hgiven
        obtain ⟨hlaid, hbehind⟩ := hreads.laysOut hopen.standing.inRow
        have hinside : c.settle.advance.index ≤ c₁.last := hlaid.le
        have hshorter := hopen.of_reaches hreads.reaches
        cases double with
        | false =>
          have hgoes₁ : c₁.GoesOn row left := hgoes.further hbehind rfl (by omega)
          simp only [Spot.expectSecond, Bool.false_eq_true, if_false, ok_bind, hgoes₁.close_spot]
          exact tracks.goOn hsize power hshorter (hgoes.further hbehind rfl (by omega))
        | true =>
          simp only [Spot.expectSecond, if_true]
          refine expect_bind_spotted hshorter.standing fun hclose => ?_
          have closed := hbehind.inRow.took (Lexeme.isTrivia_of_kind hclose rfl)
          have hlast := closed.last
          have hle₁ := closed.le
          have hlt₁ := hbehind.last_lt
          have hgoes₁ : c₁.settle.advance.GoesOn row left :=
            hgoes.further closed.behind rfl (by omega)
          simp only [hgoes₁.close_spot, ok_bind]
          exact tracks.goOn hsize power hshorter.settle_advance
            (hgoes.further closed.behind rfl (by omega))
      | member slot =>
        have hreads (whole : Expr) (c' : Cursor)
            (hmember : readMember left slot c.settle.advance = .ok (whole, c')) :=
          goesOn_readMember hgoes took hmember
        refine bind_spotted (readMember_spotted htaken.standing fun whole c' hmember => ?_) ?_
        · have hwhole := hreads whole c' hmember
          obtain ⟨name, -, rfl, rfl⟩ := readMember_eq_ok_iff.mp hmember
          exact ⟨hwhole.behind, hwhole.start_le⟩
        · intro whole c₁ hmember
          exact tracks.goOn hsize power (htaken.of_reaches (Reads.reaches_readMember hmember))
            (hreads whole c₁ hmember)
      | between level =>
        have hskip := htaken.skipNewlines
        simp only [htaken.standing.skipNewlines_spot, ok_bind]
        refine bind_spotted (tracks.shorter hsize (.expression level.rightPower) hskip rfl) ?_
        intro right c₁ hright
        have hreads := (Task.expression level.rightPower).reads_of_run hright
        have hlaid := hreads.laysOut hskip.standing.inRow
        have hinside := hlaid.start_le_last
        have hbefore := took.skipNewlines.lt_settle
        have hgoes₁ : c₁.GoesOn row left := hgoes.further hlaid.behind rfl (by omega)
        simp only [hgoes₁.close_spot, ok_bind]
        exact tracks.goOn hsize power (hskip.of_reaches hreads.reaches)
          (hgoes.further hlaid.behind rfl (by omega))

theorem operand_spotted (hsize : Task.operand.size c ≤ bound) :
    Spot.operand row (bound + 1) c.spot = spotted (operand (bound + 1) c) := by
  have hread (power : Nat) {c₁ : Cursor} (h₁ : c.Shorter row c₁) :
      Spot.read row bound power c₁.spot = spotted (read bound power c₁) :=
    tracks.shorter hsize (.expression power) h₁ rfl
  have hclose {form : Form Expr} {c₁ : Cursor}
      (hreads : Reads .operand c (c₁.close c.settle.index form) c₁) :
      (c₁.spot.close row c.settle.index form >>= fun e => .ok (e, c₁.spot)) =
        spotted (.ok (c₁.close c.settle.index form, c₁)) :=
    ReadFrom.close_spot (hreads.laysOut h.inRow)
  simp only [Spot.operand, operand, h.settle_spot, ok_bind, h.settle.head, h.settle_advance_spot,
    h.settle.refuse_spot, enter_spot, current_spot]
  cases hopening : Opening.ofLexeme? c.settle.head with
  | none => rfl
  | some opening =>
    have htaken : c.Shorter row c.settle.advance :=
      ⟨length_settle_advance_lt (Opening.kind_ne_endOfInput hopening), h.settle_advance⟩
    have hskip := htaken.skipNewlines
    -- Every call comes behind the opening, with fewer lexemes to come.
    cases opening with
    | leaf form => exact hclose (.leaf hopening)
    | name =>
      exact readName_spotted htaken.standing fun e c' hname =>
        (Reads.name hopening hname).laysOut h.inRow
    | paren =>
      refine bind_spotted (hread _ (htaken.enter .round)) ?_
      intro inner c₁ hinner
      have hreads := (Task.expression _).reads_of_run hinner
      refine expect_bind_spotted ((htaken.enter .round).of_reaches hreads.reaches).standing ?_
      exact fun hparen => hclose (.paren hopening hreads hparen)
    | block =>
      refine bind_spotted
        (tracks.shorter hsize (.statements .rightBrace) (htaken.enter .brace) rfl) ?_
      intro body c₁ hbody
      have hreads := (Task.statements .rightBrace).reads_of_run hbody
      have hinside := ((htaken.enter .brace).of_reaches hreads.reaches).standing
      -- Inside a brace line breaks mean something.
      have hsettle : c₁.settle = c₁ := settle_eq_self (by
        rw [show c₁.brackets = _ from hreads.brackets]
        simp [Task.closes])
      simp only [hinside.advance_spot, hsettle, ok_bind, leave_spot]
      exact hclose (.block hopening hreads)
    | sign operator level =>
      simp only [htaken.standing.skipNewlines_spot, ok_bind]
      refine bind_spotted (hread _ hskip) ?_
      intro inner c₁ hinner
      exact hclose (.sign hopening ((Task.expression _).reads_of_run hinner))
    | tilde =>
      simp only [htaken.standing.skipNewlines_spot, ok_bind]
      refine bind_spotted (hread _ hskip) ?_
      intro right c₁ hright
      exact hclose (.tilde hopening ((Task.expression _).reads_of_run hright))
    | function =>
      refine expect_bind_spotted htaken.standing fun hparen => ?_
      have hopen := htaken.settle_advance.enter .round
      refine bind_spotted (tracks.shorter hsize .parameters hopen rfl) ?_
      intro given c₁ hgiven
      have hreads := Task.parameters.reads_of_run hgiven
      have hbehind := hopen.of_reaches hreads.reaches
      simp only [hbehind.standing.skipNewlines_spot, ok_bind]
      refine bind_spotted (hread _ hbehind.skipNewlines) ?_
      intro body c₂ hbody
      exact hclose (.function hopening hparen hreads ((Task.expression _).reads_of_run hbody))
    | conditional =>
      refine bind_spotted (tracks.shorter hsize .header htaken rfl) ?_
      intro condition c₁ hcondition
      have hreads₁ := Task.header.reads_of_run hcondition
      have hfirst := htaken.of_reaches hreads₁.reaches
      refine bind_spotted (hread _ hfirst) ?_
      intro consequent c₂ hconsequent
      have hreads₂ := (Task.expression _).reads_of_run hconsequent
      have hsecond := hfirst.of_reaches hreads₂.reaches
      refine bind_spotted (tracks.shorter hsize .alternative hsecond rfl) ?_
      intro other c₃ hother
      exact hclose (.conditional hopening hreads₁ hreads₂ (Task.alternative.reads_of_run hother))
    | forLoop =>
      refine expect_bind_spotted htaken.standing fun hparen => ?_
      have hopen := htaken.settle_advance.enter .round
      simp only [enter_spot, hopen.standing.settle_spot, ok_bind, hopen.standing.settle.head,
        hopen.standing.settle_advance_spot, hopen.standing.settle.refuse_spot]
      split
      · rfl
      · next hcounter =>
        have hbehind := hopen.settle_advance
        refine expect_bind_spotted hbehind.standing fun hin => ?_
        refine bind_spotted (hread _ hbehind.settle_advance) ?_
        intro sequence c₁ hsequence
        have hreads := (Task.expression _).reads_of_run hsequence
        have hinside := hbehind.settle_advance.of_reaches hreads.reaches
        refine expect_bind_spotted hinside.standing fun hend => ?_
        have hclosed := hinside.settle_advance.leave
        simp only [leave_spot, hclosed.standing.skipNewlines_spot, ok_bind]
        refine bind_spotted (hread _ hclosed.skipNewlines) ?_
        intro body c₂ hbody
        exact hclose (.forLoop hopening hparen rfl (Decidable.not_not.mp hcounter) hin hreads hend
          ((Task.expression _).reads_of_run hbody))
    | whileLoop =>
      refine bind_spotted (tracks.shorter hsize .header htaken rfl) ?_
      intro condition c₁ hcondition
      have hreads := Task.header.reads_of_run hcondition
      refine bind_spotted (hread _ (htaken.of_reaches hreads.reaches)) ?_
      intro body c₂ hbody
      exact hclose (.whileLoop hopening hreads ((Task.expression _).reads_of_run hbody))
    | repeatLoop =>
      simp only [htaken.standing.skipNewlines_spot, ok_bind]
      refine bind_spotted (hread _ hskip) ?_
      intro body c₁ hbody
      exact hclose (.repeatLoop hopening ((Task.expression _).reads_of_run hbody))

theorem statements_spotted {terminator : Kind}
    (hsize : (Task.statements terminator).size c ≤ bound) :
    Spot.statements row (bound + 1) terminator c.spot =
      spotted (statements (bound + 1) terminator c) := by
  have hskip := h.of_reaches (reaches_skipSeparators c)
  simp only [Spot.statements, statements, h.skipSeparators_spot, ok_bind, hskip.head]
  split
  · rfl
  · refine bind_spotted (tracks.lower hsize (.expression _) (reaches_skipSeparators c)
      (by simp [Task.rank]) hskip rfl) ?_
    intro first c₁ hfirst
    have hreads := (Task.expression _).reads_of_run hfirst
    have hbehind : c.Shorter row c₁ :=
      ⟨Nat.lt_of_lt_of_le (hreads.length_lt rfl) (reaches_skipSeparators c).length_le,
        hskip.of_reaches hreads.reaches⟩
    refine expectEnd_bind_spotted hbehind.standing ?_
    refine bind_spotted (tracks.shorter hsize (.statements terminator) hbehind rfl) ?_
    intro others c₂ _
    rfl

theorem header_spotted (hsize : Task.header.size c ≤ bound) :
    Spot.header row (bound + 1) c.spot = spotted (Expr.header (bound + 1) c) := by
  simp only [Spot.header, Expr.header]
  refine expect_bind_spotted h fun hparen => ?_
  have hopen : c.Shorter row (c.settle.advance.enter .round) :=
    ⟨length_settle_advance_lt (by rw [hparen]; decide), h.settle_advance.enter .round⟩
  refine bind_spotted (tracks.shorter hsize (.expression _) hopen rfl) ?_
  intro condition c₁ hcondition
  have hreads := (Task.expression _).reads_of_run hcondition
  have hinside := hopen.of_reaches hreads.reaches
  refine expect_bind_spotted hinside.standing fun _ => ?_
  simp only [leave_spot, hinside.settle_advance.leave.standing.skipNewlines_spot, ok_bind]
  rfl

/-- Going back leads to where the reader was: only the index has moved. -/
theorem alternative_spotted (hsize : Task.alternative.size c ≤ bound) :
    Spot.alternative row (bound + 1) c.spot = spotted (Expr.alternative (bound + 1) c) := by
  have hbefore := h.of_reaches (reaches_beforeElse c)
  have hadvance := hbefore.advance_spot (ε := Refusal)
  rw [settle_beforeElse] at hadvance
  have hback : { c.beforeElse.spot with current := c.index } = c.spot := by
    unfold beforeElse
    split <;> rfl
  simp only [Spot.alternative, beforeElse_spot h, ok_bind, hbefore.head, hadvance, current_spot,
    hback, alternative_succ]
  split
  · next helse =>
    have hbehind : c.Shorter row c.beforeElse.advance :=
      ⟨Nat.lt_of_lt_of_le (length_advance_lt (by rw [helse]; decide))
        (reaches_beforeElse c).length_le, hbefore.of_reaches (reaches_advance _)⟩
    simp only [hbehind.standing.skipNewlines_spot, ok_bind]
    refine bind_spotted (tracks.shorter hsize (.expression _) hbehind.skipNewlines rfl) ?_
    intro branch c₁ _
    rfl
  · rfl

theorem arguments_spotted {closer : Closer} (hsize : (Task.arguments closer).size c ≤ bound) :
    Spot.arguments row (bound + 1) closer.kind c.spot =
      spotted (Expr.arguments (bound + 1) closer.kind c) := by
  simp only [Spot.arguments, Expr.arguments, h.settle_spot, ok_bind, h.settle.head,
    h.settle_advance_spot]
  split
  · rfl
  · exact tracks.lower hsize (.argumentsFrom closer) (reaches_settle c) (by simp [Task.rank])
      h.settle rfl

theorem argumentsFrom_spotted {closer : Closer}
    (hsize : (Task.argumentsFrom closer).size c ≤ bound) :
    Spot.argumentsFrom row (bound + 1) closer.kind c.spot =
      spotted (argumentsFrom (bound + 1) closer.kind c) := by
  simp only [Spot.argumentsFrom, argumentsFrom]
  refine bind_spotted (tracks.lower hsize (.argument closer) (.refl c) (by simp [Task.rank]) h
    rfl) ?_
  intro first c₁ hfirst
  have hreads := (Task.argument closer).reads_of_run hfirst
  have h₁ := h.of_reaches hreads.reaches
  simp only [h₁.settle_spot, ok_bind, h₁.settle.head, h₁.settle_advance_spot,
    h₁.settle.refuse_spot]
  split
  · next hcomma =>
    have htaken : c₁.settle.advance.rest.length < c₁.rest.length :=
      length_settle_advance_lt (by rw [hcomma]; decide)
    have hbehind : c.Shorter row c₁.settle.advance :=
      ⟨Nat.lt_of_lt_of_le htaken hreads.reaches.length_le, h₁.settle_advance⟩
    refine bind_spotted (tracks.shorter hsize (.argumentsFrom closer) hbehind rfl) ?_
    intro others c₂ _
    rfl
  · split <;> rfl

theorem argument_spotted {closer : Closer} (hsize : (Task.argument closer).size c ≤ bound) :
    Spot.argument row (bound + 1) closer.kind c.spot =
      spotted (argument (bound + 1) closer.kind c) := by
  have hvalue {c₁ : Cursor} (hreach : c.Reaches c₁) :=
    tracks.lower hsize (.argumentValue closer) hreach (by simp [Task.rank]) (h.of_reaches hreach)
      rfl
  simp only [Spot.argument, argument, h.settle_spot, ok_bind, h.settle.head,
    h.settle.secondKind?_spot, h.settle_advance_spot, h.settle_advance.advance_spot]
  cases argumentName? c.settle.head with
  | none =>
    refine bind_spotted (hvalue (reaches_settle c)) ?_
    intro value c₁ _
    rfl
  | some name =>
    simp only
    split
    · have hreach := (reaches_settle_advance c).trans (reaches_settle_advance c.settle.advance)
      refine bind_spotted (hvalue hreach) ?_
      intro value c₁ _
      rfl
    · refine bind_spotted (hvalue (reaches_settle c)) ?_
      intro value c₁ _
      rfl

theorem argumentValue_spotted {closer : Closer}
    (hsize : (Task.argumentValue closer).size c ≤ bound) :
    Spot.argumentValue row (bound + 1) closer.kind c.spot =
      spotted (argumentValue (bound + 1) closer.kind c) := by
  simp only [Spot.argumentValue, argumentValue, h.settle_spot, ok_bind, h.settle.head]
  split
  · rfl
  · refine bind_spotted (tracks.lower hsize (.expression _) (reaches_settle c)
      (by simp [Task.rank]) h.settle rfl) ?_
    intro value c₁ _
    rfl

theorem parameters_spotted (hsize : Task.parameters.size c ≤ bound) :
    Spot.parameters row (bound + 1) c.spot = spotted (Expr.parameters (bound + 1) c) := by
  simp only [Spot.parameters, Expr.parameters, h.settle_spot, ok_bind, h.settle.head,
    h.settle_advance_spot]
  split
  · rfl
  · exact tracks.lower hsize .parametersFrom (reaches_settle c) (by simp [Task.rank]) h.settle rfl

theorem parametersFrom_spotted (hsize : Task.parametersFrom.size c ≤ bound) :
    Spot.parametersFrom row (bound + 1) c.spot = spotted (parametersFrom (bound + 1) c) := by
  simp only [Spot.parametersFrom, parametersFrom, h.settle_spot, ok_bind, h.settle.head,
    h.settle_advance_spot, h.settle.refuse_spot]
  split
  · rfl
  · next hname =>
    have htaken : c.Shorter row c.settle.advance :=
      ⟨length_settle_advance_lt (by rw [Decidable.not_not.mp hname]; decide), h.settle_advance⟩
    refine bind_spotted (tracks.shorter hsize .fallback htaken rfl) ?_
    intro fallback c₁ hfallback
    have hbehind := htaken.of_reaches (Task.fallback.reads_of_run hfallback).reaches
    have h₁ := hbehind.standing
    simp only [h₁.settle_spot, ok_bind, h₁.settle.head, h₁.settle_advance_spot]
    split
    · refine bind_spotted (tracks.shorter hsize .parametersFrom hbehind.settle_advance rfl) ?_
      intro others c₂ _
      rfl
    · exact expect_bind_spotted h₁.settle fun _ => rfl

theorem fallback_spotted (hsize : Task.fallback.size c ≤ bound) :
    Spot.fallback row (bound + 1) c.spot = spotted (Expr.fallback (bound + 1) c) := by
  simp only [Spot.fallback, Expr.fallback, h.settle_spot, ok_bind, h.settle.head,
    h.settle_advance_spot]
  split
  · next hequal =>
    have htaken : c.Shorter row c.settle.advance :=
      ⟨length_settle_advance_lt (by rw [hequal]; decide), h.settle_advance⟩
    refine bind_spotted (tracks.shorter hsize (.expression _) htaken rfl) ?_
    intro value c₁ _
    rfl
  · rfl

omit h

theorem tracks_succ : Tracks row (bound + 1) := by
  intro task c hsize h hleft
  have hsize := Nat.le_of_lt_succ hsize
  cases task with
  | expression power =>
    simp only [Task.runSpot, Task.run, Spot.read, read]
    refine bind_spotted (tracks.lower hsize .operand (.refl c) (by simp [Task.rank]) h rfl) ?_
    intro left c₁ hoperand
    have hreads := Task.operand.reads_of_run hoperand
    have hlaid := hreads.laysOut h.inRow
    have hgoes : c₁.GoesOn row left := ⟨hlaid.behind, hlaid.start ▸ hlaid.start_le_last⟩
    exact tracks.goOn hsize power ⟨hreads.length_lt rfl, h.of_reaches hreads.reaches⟩ hgoes
  | continuation power left => exact continuation_spotted tracks h hsize (hleft left rfl)
  | operand => exact operand_spotted tracks h hsize
  | header => exact header_spotted tracks h hsize
  | alternative => exact alternative_spotted tracks h hsize
  | statements terminator => exact statements_spotted tracks h hsize
  | arguments closer => exact arguments_spotted tracks h hsize
  | argumentsFrom closer => exact argumentsFrom_spotted tracks h hsize
  | argument closer => exact argument_spotted tracks h hsize
  | argumentValue closer => exact argumentValue_spotted tracks h hsize
  | parameters => exact parameters_spotted tracks h hsize
  | parametersFrom => exact parametersFrom_spotted tracks h hsize
  | fallback => exact fallback_spotted tracks h hsize

end Step

theorem tracks (row : List Lexeme) (bound : Nat) : Tracks row bound := by
  induction bound with
  | zero => exact fun hsize => absurd hsize (Nat.not_lt_zero _)
  | succ bound ih => exact tracks_succ ih

/-- **A guarded call follows the call**, under all bounds above its size. -/
theorem Task.runSpot_eq {task : Task} {c : Cursor} {bound : Nat} (hsize : task.size c < bound)
    (h : c.Standing row) (hleft : ∀ left ∈ task.left?, c.GoesOn row left) :
    task.runSpot row bound c.spot = spotted (task.run bound c) := tracks row bound hsize h hleft

/-- **Reading stays within the row**, and ends. -/
theorem readAll_spot {row : List Lexeme} (hrow : ∀ lexeme ∈ row, lexeme.kind ≠ .endOfInput) :
    Spot.readAll (row ++ [.endOfInput]) = plain (readAll (row ++ [.endOfInput])) := by
  have hstanding : (ofLexemes (row ++ [.endOfInput])).Standing (row ++ [.endOfInput]) :=
    ⟨in_ofLexemes _, closed_ofLexemes hrow⟩
  have hrun : Spot.statements (row ++ [.endOfInput])
      (callsPerLexeme * ((row ++ [Lexeme.endOfInput]).length + 1)) .endOfInput ⟨0, 0, []⟩ =
      spotted (statements (callsPerLexeme * ((row ++ [Lexeme.endOfInput]).length + 1)) .endOfInput
        (ofLexemes (row ++ [.endOfInput]))) :=
    Task.runSpot_eq (size_lt_readAll _) hstanding (Task.no_left rfl)
  rw [Spot.readAll, hrun, readAll]
  cases statements (callsPerLexeme * ((row ++ [Lexeme.endOfInput]).length + 1)) .endOfInput
      (ofLexemes (row ++ [.endOfInput])) <;> rfl

end Expr
end TypeDrift
