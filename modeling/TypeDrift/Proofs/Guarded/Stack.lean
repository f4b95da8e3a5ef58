import TypeDrift.Proofs.Guarded.Constructs
import TypeDrift.Proofs.Guarded.Halting

/-! # The brackets that readers have open

A routine that succeeds leaves the list of open brackets as it found it, and where a routine begins
the list has one entry for each construct around it (`Visit.Kept`).  So it does not matter how a
routine came to an end: the readers that go on behind it treat line breaks, and `else` behind them,
as the brackets around them say.

The row may be any row.  No call uses up its bound (`Task.HasRoom`): a call that it makes comes
behind a lexeme, or it is of a lower rank.
-/
namespace TypeDrift

namespace Spot

variable {row : List Lexeme} {inside : List Construct} {least : Nat} {s : Spot}

theorem newlineSensitive_of_brackets (h : s.brackets = inside.map Construct.bracket) :
    s.newlineSensitive = true :: inside.reverse.map Construct.newlineSensitive := by
  rw [newlineSensitive, h, ← List.map_reverse, List.map_map]
  exact congrArg _ (List.map_congr_left fun construct _ => construct.newlineSensitive_eq)

theorem isNested_iff (h : s.brackets = inside.map Construct.bracket) :
    s.isNested = true ↔ inside ≠ [] := by
  rw [isNested, newlineSensitive_of_brackets h]
  simp [List.length_pos_iff]

end Spot

/-- The routines that begin and end in the contents of the same constructs, and of which no more is
said. -/
def Routine.isPlain : Routine → Bool
  | expression | operand | elseBranch _ | arguments => false
  | _ => true

/-! ## What is kept -/

/-- What holds of a routine that is visited, whether it succeeds or not. -/
structure Visit.Kept (row : List Lexeme) (visit : Visit) : Prop where
  /-- If it succeeds, it leaves the list as it found it. -/
  balanced : ∀ stop ∈ visit.stop?, stop.newlineSensitive = visit.start.newlineSensitive
  /-- An expression or an operand that is read takes a lexeme. -/
  advanced : visit.routine = .expression ∨ visit.routine = .operand →
    ∀ stop ∈ visit.stop?, visit.start.current < stop.current
  /-- The list has an entry for the script and for each construct around the routine, the innermost
  one last. -/
  stack : visit.start.newlineSensitive =
    true :: visit.inside.reverse.map Construct.newlineSensitive
  /-- These constructs are the brackets that the lexemes leave open.  Arguments begin behind a
  bracket that they have still to enter. -/
  opened : visit.routine ≠ .arguments →
    visit.start.opened row = visit.inside.map Construct.opened
  /-- Where `else` is looked for, the reader is nested if and only if the conditional stands in some
  construct. -/
  nested : ∀ place, visit.routine = .elseBranch place →
    (∃ first, row[place]? = some first ∧ first.kind = .keyword .ifWord) ∧
      OpenBracket.after [] (row.take place) = visit.inside.map Construct.opened ∧
      (visit.start.isNested = true ↔ visit.inside ≠ [])

/-! ## Noted runs, visit by visit -/

namespace Noted

variable {α β : Type}

/-- A run comes to an end, all its visits have a property, and what it answers with has another
one. -/
structure Meets (p : Visit → Prop) (q : α → Prop) (run : Noted α) : Prop where
  halts : run.outcome.Halts
  visits : ∀ visit ∈ run.visits, p visit
  answer : ∀ a, run.outcome = .ok a → q a

namespace Meets

variable {p : Visit → Prop} {q : α → Prop} {q' : β → Prop}

theorem silent {x : Guarded Refusal α} [hx : x.Halts] (h : ∀ a, x = .ok a → q a) :
    (silent x).Meets p q := ⟨hx, nofun, h⟩

theorem pure {a : α} (h : q a) : (Pure.pure a : Noted α).Meets p q := by
  refine silent fun a' ha => ?_
  cases ha
  exact h

theorem bind {run : Noted α} {next : α → Noted β} (hrun : run.Meets p q)
    (hnext : ∀ a, q a → (next a).Meets p q') : (run >>= next).Meets p q' := by
  obtain ⟨visits, failure | a⟩ := run
  · refine ⟨⟨fun h => hrun.halts.ne_endless ?_⟩, hrun.visits, nofun⟩
    cases h
    rfl
  · have ha := hnext a (hrun.answer a rfl)
    exact ⟨ha.halts, List.forall_mem_append.mpr ⟨hrun.visits, ha.visits⟩, ha.answer⟩

/-- Behind a reader, which answers with a place too. -/
theorem reader {run : Noted (α × Spot)} {q : α × Spot → Prop} {next : α × Spot → Noted β}
    (hrun : run.Meets p q) (hnext : ∀ a s, q (a, s) → (next (a, s)).Meets p q') :
    (run >>= next).Meets p q' := hrun.bind fun a => hnext a.1 a.2

/-- Behind a step that visits nothing. -/
theorem step {x : Guarded Refusal α} [x.Halts] {next : α → Noted β}
    (hnext : ∀ a, x = .ok a → (next a).Meets p q') : (Noted.silent x >>= next).Meets p q' :=
  (silent fun _ ha => ha).bind hnext

theorem mono {run : Noted α} {q'' : α → Prop} (hrun : run.Meets p q) (h : ∀ a, q a → q'' a) :
    run.Meets p q'' := ⟨hrun.halts, hrun.visits, fun a ha => h a (hrun.answer a ha)⟩

variable {row : List Lexeme} {inside : List Construct} {opened : List OpenBracket}
  {least least' : Nat} {s : Spot} {routine : Routine} {run : Noted (α × Spot)}

/-- A visit of a routine, from what is known where it begins and where it ends. -/
theorem visiting
    (hrun : run.Meets (Visit.Kept row)
      fun a => a.2.Stands row (inside.map Construct.bracket) opened least)
    (hstart : s.brackets = inside.map Construct.bracket)
    (hleast : routine = .expression ∨ routine = .operand → s.current < least)
    (hopened : routine ≠ .arguments → s.opened row = inside.map Construct.opened)
    (hplace : ∀ place, routine = .elseBranch place →
      (∃ first, row[place]? = some first ∧ first.kind = .keyword .ifWord) ∧
        OpenBracket.after [] (row.take place) = inside.map Construct.opened) :
    (Noted.visiting routine inside s run).Meets (Visit.Kept row)
      fun a => a.2.Stands row (inside.map Construct.bracket) opened least := by
  have hstops : ∀ stop ∈ run.outcome.toOption.map Prod.snd,
      stop.Stands row (inside.map Construct.bracket) opened least := by
    obtain ⟨visits, failure | a⟩ := run
    · nofun
    · rintro stop ⟨⟩
      exact hrun.answer a rfl
  have hstack := Spot.newlineSensitive_of_brackets hstart
  refine ⟨hrun.halts, List.forall_mem_cons.mpr ⟨?_, hrun.visits⟩, hrun.answer⟩
  exact {
    balanced := fun stop hstop =>
      (Spot.newlineSensitive_of_brackets (hstops stop hstop).brackets_eq).trans hstack.symm
    advanced := fun hroutine stop hstop =>
      Nat.lt_of_lt_of_le (hleast hroutine) (hstops stop hstop).least_le
    stack := hstack
    opened := hopened
    nested := fun place hroutine =>
      ⟨(hplace place hroutine).1, (hplace place hroutine).2, Spot.isNested_iff hstart⟩ }

/-- A routine that begins and ends in the contents of the same constructs. -/
theorem plain (hrun : run.Meets (Visit.Kept row) fun a => a.2.Within row inside least)
    (hstart : s.Within row inside least') (hplain : routine.isPlain = true) :
    (Noted.visiting routine inside s run).Meets (Visit.Kept row)
      fun a => a.2.Within row inside least := by
  refine hrun.visiting hstart.brackets_eq ?_ (fun _ => hstart.opened_eq) ?_
  · rintro (rfl | rfl) <;> cases hplain
  · rintro place rfl
    cases hplain

/-- The same, if the routine is visited at all. -/
theorem plainIf {visited : Bool}
    (hrun : run.Meets (Visit.Kept row) fun a => a.2.Within row inside least)
    (hstart : s.Within row inside least') (hplain : routine.isPlain = true) :
    (visitingIf visited routine inside s run).Meets (Visit.Kept row)
      fun a => a.2.Within row inside least := by
  cases visited with
  | false => exact hrun
  | true => exact hrun.plain hstart hplain

/-- An expression or an operand, which takes a lexeme. -/
theorem taking (hrun : run.Meets (Visit.Kept row) fun a => a.2.Within row inside (s.current + 1))
    (hstart : s.Within row inside least) (hroutine : routine = .expression ∨ routine = .operand) :
    (Noted.visiting routine inside s run).Meets (Visit.Kept row)
      fun a => a.2.Within row inside (s.current + 1) := by
  refine hrun.visiting hstart.brackets_eq (fun _ => Nat.lt_succ_self _)
    (fun _ => hstart.opened_eq) ?_
  rintro place rfl
  rcases hroutine with h | h <;> cases h

/-- Arguments, behind the bracket that opens them. -/
theorem arguments
    (hrun : run.Meets (Visit.Kept row)
      fun a => a.2.Stands row (inside.map Construct.bracket) opened least)
    (hstart : s.brackets = inside.map Construct.bracket) :
    (Noted.visiting .arguments inside s run).Meets (Visit.Kept row)
      fun a => a.2.Stands row (inside.map Construct.bracket) opened least := by
  refine hrun.visiting hstart ?_ (fun h => absurd rfl h) (fun _ => nofun)
  rintro (h | h) <;> cases h

/-- The last part of a conditional, with the place of `if`. -/
theorem elseBranch {first : Lexeme} {condition : Spot}
    (hrun : run.Meets (Visit.Kept row) fun a => a.2.Within row inside least)
    (hstart : s.Within row inside least) (hcondition : condition.Within row inside least')
    (hfirst : row[condition.current]? = some first) (hkind : first.kind = .keyword .ifWord) :
    (Noted.visiting (.elseBranch condition.current) inside s run).Meets (Visit.Kept row)
      fun a => a.2.Within row inside least := by
  refine hrun.visiting hstart.brackets_eq ?_ (fun _ => hstart.opened_eq) ?_
  · rintro (h | h) <;> cases h
  · rintro place ⟨⟩
    exact ⟨⟨first, hfirst, hkind⟩, hcondition.opened_eq⟩

end Meets
end Noted

/-! ## The readers -/

theorem Opening.kind_of_conditional {lexeme : Lexeme} (h : ofLexeme? lexeme = some conditional) :
    lexeme.kind = .keyword .ifWord := by
  obtain ⟨kind, text⟩ := lexeme
  cases kind with
  | keyword word => cases word <;> first | rfl | cases h
  | _ => cases h

namespace Expr

open Noted OpenBracket

variable {row : List Lexeme}

/-- Where a call in the contents of some constructs lands that began at the index `least` or behind
it.  Arguments and parameters leave the innermost construct by taking the bracket that closes it. -/
def Task.Lands (row : List Lexeme) (inside : List Construct) (least : Nat) (s : Spot) : Task → Prop
  | expression _ | operand => s.Within row inside (least + 1)
  | arguments closer | argumentsFrom closer =>
    s.Stands row (inside.map Construct.bracket).tail
      (step (inside.map Construct.opened) closer.kind) least
  | parameters | parametersFrom =>
    s.Stands row (inside.map Construct.bracket).tail
      (step (inside.map Construct.opened) .rightParen) least
  | statements terminator =>
    s.Within row inside least ∧
      ∃ lexeme, row[s.current]? = some lexeme ∧ lexeme.kind = terminator
  | _ => s.Within row inside least

theorem Task.Lands.mono {inside : List Construct} {least least' : Nat} {s : Spot} {task : Task}
    (h : task.Lands row inside least s) (hle : least' ≤ least) :
    task.Lands row inside least' s := by
  cases task with
  | expression power => exact Spot.Stands.mono h (Nat.succ_le_succ hle)
  | operand => exact Spot.Stands.mono h (Nat.succ_le_succ hle)
  | statements terminator => exact ⟨h.1.mono hle, h.2⟩
  | _ => exact Spot.Stands.mono h hle

/-- The bound is above the size of a call at the index `least`.  What lies before that index is
counted on the side of the bound. -/
def Task.HasRoom (row : List Lexeme) (bound least : Nat) (task : Task) : Prop :=
  callsPerLexeme * row.length + task.rank < bound + callsPerLexeme * least

/-- With this bound, calls in the contents of some constructs land as they should if it leaves room
for them, and so do all routines that are visited. -/
def Balances (row : List Lexeme) (bound : Nat) : Prop :=
  ∀ (task : Task) {inside : List Construct} {s : Spot}, task.HasRoom row bound s.current →
    s.Within row inside s.current →
      (task.note row bound inside s).Meets (Visit.Kept row)
        fun a => task.Lands row inside s.current a.2

section Step
variable {bound : Nat} (balances : Balances row bound) {inside : List Construct} {s : Spot}
  {least : Nat}
include balances

theorem Balances.call {task : Task} (hroom : task.HasRoom row bound least)
    (h : s.Within row inside least) :
    (task.note row bound inside s).Meets (Visit.Kept row)
      fun a => task.Lands row inside least a.2 := by
  refine (balances task ?_ h.here).mono fun _ hlands => hlands.mono h.least_le
  exact Nat.lt_of_lt_of_le hroom
    (Nat.add_le_add_left (Nat.mul_le_mul_left _ h.least_le) bound)

/-- A call behind a lexeme, as a step of a call. -/
theorem Balances.behind {caller : Task} (hroom : caller.HasRoom row (bound + 1) least) (task : Task)
    {least' : Nat} (h : s.Within row inside least') (hlt : least < least') :
    (task.note row bound inside s).Meets (Visit.Kept row)
      fun a => task.Lands row inside least' a.2 := by
  refine balances.call ?_ h
  have hrank := task.rank_lt_callsPerLexeme
  simp only [Task.HasRoom, callsPerLexeme] at *
  omega

/-- A call of a lower rank, as a step of a call. -/
theorem Balances.lower {caller : Task} (hroom : caller.HasRoom row (bound + 1) least) (task : Task)
    (h : s.Within row inside least) (hrank : task.rank < caller.rank) :
    (task.note row bound inside s).Meets (Visit.Kept row)
      fun a => task.Lands row inside least a.2 := by
  refine balances.call ?_ h
  simp only [Task.HasRoom] at *
  omega

/-- An expression behind a lexeme. -/
theorem Balances.read {caller : Task} (hroom : caller.HasRoom row (bound + 1) least) (power : Nat)
    {least' : Nat} (h : s.Within row inside least') (hlt : least < least') :
    (Noted.read row bound inside power s).Meets (Visit.Kept row)
      fun a => a.2.Within row inside (least' + 1) := balances.behind hroom (.expression power) h hlt

theorem meets_continuation {power : Nat} {left : Expr}
    (hroom : (Task.continuation power left).HasRoom row (bound + 1) least)
    (h : s.Within row inside least) :
    (Noted.continuation row (bound + 1) inside power left s).Meets (Visit.Kept row)
      fun a => a.2.Within row inside least := by
  have hgo (e : Expr) {s' : Spot} (h' : s'.Within row inside (least + 1)) :
      (Noted.continuation row bound inside power e s').Meets (Visit.Kept row)
        fun a => a.2.Within row inside least :=
    (balances.behind hroom (.continuation power e) h' (by omega)).mono fun _ hlands =>
      Spot.Stands.mono hlands (Nat.le_succ least)
  simp only [Noted.continuation]
  refine .step fun s₁ hsettle => .step fun next hhead => ?_
  have hsettled := h.settle hsettle
  have hnext := Spot.getElem?_of_head hhead
  cases hstep : Continuation.ofKind? next.kind with
  | none => exact .pure hsettled
  | some step =>
    have htrivia := Continuation.isTrivia_eq_false hstep
    simp only
    split
    · exact .pure hsettled
    · cases step with
      | call =>
        refine .step fun behind hadvance => ?_
        have hbehind := hsettled.take hnext (Continuation.kind_of_call hstep) rfl hadvance
        have hopen : (behind.enter .round).Within row (.arguments :: inside) (least + 1) :=
          hbehind.enter .round
        refine (Meets.arguments (balances.behind hroom (.arguments .paren) hopen (by omega))
          hbehind.brackets_eq).reader fun given s₂ hgiven => ?_
        exact .step fun e _ => hgo e hgiven
      | index double =>
        refine .step fun behind hadvance => ?_
        have hbehind := hsettled.take hnext (Continuation.kind_of_index hstep)
          (by cases double <;> rfl) hadvance
        have hopen : (behind.enter .round).Within row (.index double :: inside) (least + 1) := by
          cases double <;> exact hbehind.enter .round
        refine (Meets.arguments (balances.behind hroom (.arguments .bracket) hopen (by omega))
          hbehind.brackets_eq).reader fun given s₂ hgiven => ?_
        refine .step fun s₃ hsecond => .step fun e _ => hgo e ?_
        -- The arguments have taken one bracket already; two of them need another one.
        cases double with
        | false =>
          cases hsecond
          exact hgiven
        | true => exact (hgiven.expect rfl hsecond).mono (Nat.le_succ _)
      | member slot =>
        refine .step fun s₂ hadvance => .step ?_
        rintro ⟨whole, s₃⟩ hmember
        refine hgo whole ?_
        have hbehind := hsettled.takePlain hnext htrivia (Continuation.isBracket_eq hstep) hadvance
        exact hbehind.readMember hmember
      | between level =>
        refine .step fun s₂ hadvance => .step fun s₃ hskip => ?_
        have hbehind := hsettled.takePlain hnext htrivia (Continuation.isBracket_eq hstep) hadvance
        have hpassed := hbehind.skipNewlines hskip
        refine (balances.read hroom _ hpassed (by omega)).reader fun right after hright => ?_
        exact .step fun e _ => hgo e (hright.mono (Nat.le_succ _))

theorem meets_operand (hroom : Task.operand.HasRoom row (bound + 1) s.current)
    (h : s.Within row inside s.current) :
    (Noted.operand row (bound + 1) inside s).Meets (Visit.Kept row)
      fun a => a.2.Within row inside (s.current + 1) := by
  simp only [Noted.operand]
  refine .taking ?_ h (.inr rfl)
  refine .step fun s₁ hsettle => .step fun first hhead => ?_
  generalize s.current = least at h hroom
  have hsettled := h.settle hsettle
  have hfirst := Spot.getElem?_of_head hhead
  refine .plainIf ?_ hsettled rfl
  cases hopening : Opening.ofLexeme? first with
  | none => exact .silent fun a ha => absurd ha (Spot.refuse_ne_ok a)
  | some opening =>
    have htrivia := Opening.isTrivia_eq_false hopening
    have hplain (hencloses : opening.encloses = false) {s₂ : Spot}
        (hadvance : (s₁.advance row : Guarded Refusal Spot) = .ok s₂) :
        s₂.Within row inside (least + 1) :=
      hsettled.takePlain hfirst htrivia ((Opening.isBracket_eq hopening).trans hencloses) hadvance
    cases opening with
    | leaf form => exact .step fun s₂ hadvance => .step fun e _ => .pure (hplain rfl hadvance)
    | name =>
      exact .step fun s₂ hadvance => .silent fun _ hname => (hplain rfl hadvance).readName hname
    | paren =>
      refine .step fun s₂ hadvance => ?_
      have hbehind := hsettled.take hfirst (Opening.kind_of_paren hopening) rfl hadvance
      have hopen : (s₂.enter .round).Within row (.paren :: inside) (least + 1) :=
        hbehind.enter .round
      refine (balances.read hroom _ hopen (by omega)).reader fun inner s₃ hinner => ?_
      refine .step fun s₄ hclose => .step fun e _ => .pure ?_
      exact (hinner.expect rfl hclose).leave.mono (by omega)
    | block =>
      refine .plain ?_ hsettled rfl
      refine .step fun s₂ hadvance => ?_
      have hbehind := hsettled.take hfirst (Opening.kind_of_block hopening) rfl hadvance
      have hopen : (s₂.enter .brace).Within row (.block :: inside) (least + 1) :=
        hbehind.enter .brace
      have hbody := balances.behind hroom (.statements .rightBrace) hopen (by omega)
      refine hbody.reader fun body s₃ hbody => ?_
      obtain ⟨hbody, lexeme, hlexeme, hkind⟩ := hbody
      refine .step fun s₄ hclose => .step fun e _ => .pure ?_
      exact (hbody.take hlexeme hkind rfl hclose).leave.mono (by omega)
    | sign operator level =>
      refine .step fun s₂ hadvance => .step fun s₃ hskip => ?_
      have hbehind := (hplain rfl hadvance).skipNewlines hskip
      refine (balances.read hroom _ hbehind (by omega)).reader fun inner s₄ hinner => ?_
      exact .step fun e _ => .pure (hinner.mono (by omega))
    | tilde =>
      refine .step fun s₂ hadvance => .step fun s₃ hskip => ?_
      have hbehind := (hplain rfl hadvance).skipNewlines hskip
      refine (balances.read hroom _ hbehind (by omega)).reader fun right s₄ hright => ?_
      exact .step fun e _ => .pure (hright.mono (by omega))
    | function =>
      refine .step fun s₂ hadvance => ?_
      have hbehind := hplain rfl hadvance
      refine .plain ?_ hbehind rfl
      refine .step fun s₃ hparen => ?_
      have hopen : (s₃.enter .round).Within row (.parameters :: inside) (least + 1 + 1) :=
        (hbehind.expect rfl hparen).enter .round
      refine (balances.behind hroom .parameters hopen (by omega)).reader fun given s₄ hgiven => ?_
      have hgiven : s₄.Within row inside (least + 1 + 1) := hgiven
      refine .step fun s₅ hskip => ?_
      have hclosed := hgiven.skipNewlines hskip
      refine (balances.read hroom _ hclosed (by omega)).reader fun body s₆ hbody => ?_
      exact .step fun e _ => .pure (hbody.mono (by omega))
    | conditional =>
      refine .step fun s₂ hadvance => ?_
      have hbehind := hplain rfl hadvance
      refine .plain ?_ hbehind rfl
      have hcondition := balances.behind hroom .header hbehind (by omega)
      refine hcondition.reader fun condition s₃ hcondition => ?_
      refine Meets.reader
        (balances.read hroom _ hcondition (by omega)) fun consequent s₄ hconsequent => ?_
      have hother := balances.behind hroom .alternative hconsequent (by omega)
      refine (Meets.elseBranch hother hconsequent hsettled hfirst
        (Opening.kind_of_conditional hopening)).reader fun other s₅ hother => ?_
      exact .step fun e _ => .pure (hother.mono (by omega))
    | forLoop =>
      refine .step fun s₂ hadvance => ?_
      have hbehind := hplain rfl hadvance
      refine .plain ?_ hbehind rfl
      refine .step fun s₃ hparen => .step fun s₄ hinside => .step fun counter hcounter => ?_
      have hopen : s₄.Within row (.header :: inside) (least + 1 + 1) :=
        ((hbehind.expect rfl hparen).enter .round).settle hinside
      split
      · exact .silent fun a ha => absurd ha (Spot.refuse_ne_ok a)
      · next hidentifier =>
        have hkind : counter.kind = .identifier := Decidable.not_not.mp hidentifier
        refine .step fun s₅ hname => .step fun s₆ hin => ?_
        have hname := hopen.take (Spot.getElem?_of_head hcounter) hkind rfl hname
        have hin := hname.expect rfl hin
        refine (balances.read hroom _ hin (by omega)).reader fun sequence s₇ hsequence => ?_
        refine .step fun s₈ hclose => .step fun s₉ hskip => ?_
        have hclosed : s₉.Within row inside _ :=
          (hsequence.expect rfl hclose).leave.skipNewlines hskip
        refine (balances.read hroom _ hclosed (by omega)).reader fun body s₁₀ hbody => ?_
        exact .step fun e _ => .pure (hbody.mono (by omega))
    | whileLoop =>
      refine .step fun s₂ hadvance => ?_
      have hbehind := hplain rfl hadvance
      refine .plain ?_ hbehind rfl
      have hcondition := balances.behind hroom .header hbehind (by omega)
      refine hcondition.reader fun condition s₃ hcondition => ?_
      refine (balances.read hroom _ hcondition (by omega)).reader fun body s₄ hbody => ?_
      exact .step fun e _ => .pure (hbody.mono (by omega))
    | repeatLoop =>
      refine .step fun s₂ hadvance => .step fun s₃ hskip => ?_
      have hbehind := (hplain rfl hadvance).skipNewlines hskip
      refine (balances.read hroom _ hbehind (by omega)).reader fun body s₄ hbody => ?_
      exact .step fun e _ => .pure (hbody.mono (by omega))

theorem meets_header (hroom : Task.header.HasRoom row (bound + 1) least)
    (h : s.Within row inside least) :
    (Noted.header row (bound + 1) inside s).Meets (Visit.Kept row)
      fun a => a.2.Within row inside least := by
  simp only [Noted.header]
  refine .plain ?_ h rfl
  refine .step fun s₁ hparen => ?_
  have hopen : (s₁.enter .round).Within row (.header :: inside) (least + 1) :=
    (h.expect rfl hparen).enter .round
  refine (balances.read hroom _ hopen (by omega)).reader fun condition s₂ hcondition => ?_
  refine .step fun s₃ hclose => .step fun s₄ hskip => .pure ?_
  exact ((hcondition.expect rfl hclose).leave.skipNewlines hskip).mono (by omega)

/-- Where no branch comes the reader goes back, with the brackets that it has found. -/
theorem meets_alternative (hroom : Task.alternative.HasRoom row (bound + 1) least)
    (h : s.Within row inside least) :
    (Noted.alternative row (bound + 1) inside s).Meets (Visit.Kept row)
      fun a => a.2.Within row inside least := by
  simp only [Noted.alternative]
  refine .step fun ahead hbefore => .step fun next hhead => ?_
  have hahead := h.beforeElse hbefore
  split
  · next helse =>
    refine .step fun s₁ hadvance => .step fun s₂ hskip => ?_
    have hbehind := hahead.take (Spot.getElem?_of_head hhead) helse rfl hadvance
    have hpassed := hbehind.skipNewlines hskip
    refine (balances.read hroom _ hpassed (by omega)).reader fun branch after hbranch => ?_
    exact .pure (hbranch.mono (by omega))
  · exact .pure ⟨hahead.brackets_eq, h.opened_eq, h.least_le, h.le_length⟩

theorem meets_statements {terminator : Kind}
    (hroom : (Task.statements terminator).HasRoom row (bound + 1) least)
    (h : s.Within row inside least) :
    (Noted.statements row (bound + 1) inside terminator s).Meets (Visit.Kept row)
      fun a => (Task.statements terminator).Lands row inside least a.2 := by
  simp only [Noted.statements]
  refine .step fun s₁ hskip => .step fun next hhead => ?_
  have hskipped := h.skipSeparators hskip
  split
  · next hend => exact .pure ⟨hskipped, next, Spot.getElem?_of_head hhead, hend⟩
  · refine Meets.reader (balances.lower hroom (.expression _) hskipped (by simp [Task.rank])) ?_
    intro first s₂ hfirst
    refine .step fun _ _ => ?_
    have hothers := balances.behind hroom (.statements terminator) hfirst (by omega)
    refine hothers.reader fun others s₃ hothers => ?_
    exact .pure (hothers.mono (by omega))

theorem meets_arguments {closer : Closer}
    (hroom : (Task.arguments closer).HasRoom row (bound + 1) least)
    (h : s.Within row inside least) :
    (Noted.arguments row (bound + 1) inside closer.kind s).Meets (Visit.Kept row)
      fun a => (Task.arguments closer).Lands row inside least a.2 := by
  simp only [Noted.arguments]
  refine .step fun s₁ hsettle => .step fun next hhead => ?_
  have hsettled := h.settle hsettle
  split
  · next hclose =>
    refine .step fun s₂ hadvance => .pure ?_
    have htaken := hsettled.take (Spot.getElem?_of_head hhead) hclose (by cases closer <;> rfl)
      hadvance
    exact htaken.leave.mono (Nat.le_succ _)
  · exact balances.lower hroom (.argumentsFrom closer) hsettled (by simp [Task.rank])

theorem meets_argumentsFrom {closer : Closer}
    (hroom : (Task.argumentsFrom closer).HasRoom row (bound + 1) least)
    (h : s.Within row inside least) :
    (Noted.argumentsFrom row (bound + 1) inside closer.kind s).Meets (Visit.Kept row)
      fun a => (Task.argumentsFrom closer).Lands row inside least a.2 := by
  simp only [Noted.argumentsFrom]
  have hfirst := balances.lower hroom (.argument closer) h (by simp [Task.rank])
  refine hfirst.reader fun first s₁ hfirst => ?_
  refine .step fun s₂ hsettle => .step fun next hhead => ?_
  have hsettled := Spot.Stands.settle hfirst hsettle
  have hnext := Spot.getElem?_of_head hhead
  split
  · next hcomma =>
    refine .step fun s₃ hadvance => ?_
    have hbehind := hsettled.take hnext hcomma rfl hadvance
    have hothers := balances.behind hroom (.argumentsFrom closer) hbehind (by omega)
    refine hothers.reader fun others s₄ hothers => ?_
    exact .pure (hothers.mono (Nat.le_succ _))
  · split
    · next hclose =>
      refine .step fun s₃ hadvance => .pure ?_
      have htaken := hsettled.take hnext hclose (by cases closer <;> rfl) hadvance
      exact htaken.leave.mono (Nat.le_succ _)
    · exact .silent fun a ha => absurd ha (Spot.refuse_ne_ok a)

theorem meets_argument {closer : Closer}
    (hroom : (Task.argument closer).HasRoom row (bound + 1) least)
    (h : s.Within row inside least) :
    (Noted.argument row (bound + 1) inside closer.kind s).Meets (Visit.Kept row)
      fun a => a.2.Within row inside least := by
  have hvalue {s' : Spot} (h' : s'.Within row inside least) :
      (Noted.argumentValue row bound inside closer.kind s').Meets (Visit.Kept row)
        fun a => a.2.Within row inside least :=
    balances.lower hroom (.argumentValue closer) h' (by simp [Task.rank])
  simp only [Noted.argument]
  refine .plain ?_ h rfl
  refine .step fun s₁ hsettle => .step fun first hhead => ?_
  have hsettled := h.settle hsettle
  cases hname : argumentName? first with
  | none => exact (hvalue hsettled).reader fun value s₂ hlands => .pure hlands
  | some name =>
    refine .step fun second hsecond => ?_
    split
    · next hequal =>
      refine .step fun s₂ hadvance => .step fun s₃ hadvance' => ?_
      subst hequal
      have hnext := Spot.find?_of_secondKind? (Spot.getElem?_of_head hhead)
        (isTrivia_of_argumentName? hname) hsecond hadvance
      have hbehind := hsettled.takePlain (Spot.getElem?_of_head hhead)
        (isTrivia_of_argumentName? hname) (isBracket_of_argumentName? hname) hadvance
      refine (hvalue ((hbehind.advance rfl hnext hadvance').mono ?_)).reader fun value s₄ hlands =>
        .pure hlands
      exact Nat.le_succ _
    · exact (hvalue hsettled).reader fun value s₂ hlands => .pure hlands

theorem meets_argumentValue {closer : Closer}
    (hroom : (Task.argumentValue closer).HasRoom row (bound + 1) least)
    (h : s.Within row inside least) :
    (Noted.argumentValue row (bound + 1) inside closer.kind s).Meets (Visit.Kept row)
      fun a => a.2.Within row inside least := by
  simp only [Noted.argumentValue]
  refine .step fun s₁ hsettle => .step fun next _ => ?_
  have hsettled := h.settle hsettle
  split
  · exact .pure hsettled
  · refine Meets.reader (balances.lower hroom (.expression _) hsettled (by simp [Task.rank])) ?_
    intro value s₂ hvalue
    exact .pure (Spot.Stands.mono hvalue (Nat.le_succ _))

theorem meets_parameters (hroom : Task.parameters.HasRoom row (bound + 1) least)
    (h : s.Within row inside least) :
    (Noted.parameters row (bound + 1) inside s).Meets (Visit.Kept row)
      fun a => Task.parameters.Lands row inside least a.2 := by
  simp only [Noted.parameters]
  refine .step fun s₁ hsettle => .step fun next hhead => ?_
  have hsettled := h.settle hsettle
  split
  · next hclose =>
    refine .step fun s₂ hadvance => .pure ?_
    have htaken := hsettled.take (Spot.getElem?_of_head hhead) hclose rfl hadvance
    exact htaken.leave.mono (Nat.le_succ _)
  · exact balances.lower hroom .parametersFrom hsettled (by simp [Task.rank])

theorem meets_parametersFrom (hroom : Task.parametersFrom.HasRoom row (bound + 1) least)
    (h : s.Within row inside least) :
    (Noted.parametersFrom row (bound + 1) inside s).Meets (Visit.Kept row)
      fun a => Task.parametersFrom.Lands row inside least a.2 := by
  simp only [Noted.parametersFrom]
  refine .step fun s₁ hsettle => .step fun name hhead => ?_
  have hsettled := h.settle hsettle
  split
  · exact .silent fun a ha => absurd ha (Spot.refuse_ne_ok a)
  · next hidentifier =>
    have hkind : name.kind = .identifier := Decidable.not_not.mp hidentifier
    refine .step fun s₂ hadvance => ?_
    have hbehind := hsettled.take (Spot.getElem?_of_head hhead) hkind rfl hadvance
    have hfallback := balances.behind hroom .fallback hbehind (by omega)
    refine hfallback.reader fun fallback s₃ hfallback => ?_
    refine .step fun s₄ hsettle' => .step fun next hhead' => ?_
    have hsettled' := Spot.Stands.settle hfallback hsettle'
    split
    · next hcomma =>
      refine .step fun s₅ hadvance' => ?_
      have hnext := hsettled'.take (Spot.getElem?_of_head hhead') hcomma rfl hadvance'
      have hothers := balances.behind hroom .parametersFrom hnext (by omega)
      refine hothers.reader fun others s₆ hothers => ?_
      exact .pure (hothers.mono (by omega))
    · exact .step fun s₅ hclose => .pure ((hsettled'.expect rfl hclose).leave.mono (by omega))

theorem meets_fallback (hroom : Task.fallback.HasRoom row (bound + 1) least)
    (h : s.Within row inside least) :
    (Noted.fallback row (bound + 1) inside s).Meets (Visit.Kept row)
      fun a => a.2.Within row inside least := by
  simp only [Noted.fallback]
  refine .step fun s₁ hsettle => .step fun next hhead => ?_
  have hsettled := h.settle hsettle
  split
  · next hequal =>
    refine .step fun s₂ hadvance => ?_
    have hbehind := hsettled.take (Spot.getElem?_of_head hhead) hequal rfl hadvance
    refine (balances.read hroom _ hbehind (by omega)).reader fun value s₃ hvalue => ?_
    exact .pure (hvalue.mono (by omega))
  · exact .pure hsettled

omit inside s least

/-- One more call deep, all calls land as they should. -/
theorem balances_succ : Balances row (bound + 1) := by
  intro task inside s hroom h
  cases task with
  | expression power =>
    simp only [Task.note, Noted.read]
    refine .taking ?_ h (.inl rfl)
    refine (balances.lower hroom .operand h (by simp [Task.rank])).reader fun left s₁ hoperand => ?_
    exact balances.behind hroom (.continuation power left) hoperand (by omega)
  | continuation power left => exact meets_continuation balances hroom h
  | operand => exact meets_operand balances hroom h
  | header => exact meets_header balances hroom h
  | alternative => exact meets_alternative balances hroom h
  | statements terminator => exact meets_statements balances hroom h
  | arguments closer => exact meets_arguments balances hroom h
  | argumentsFrom closer => exact meets_argumentsFrom balances hroom h
  | argument closer => exact meets_argument balances hroom h
  | argumentValue closer => exact meets_argumentValue balances hroom h
  | parameters => exact meets_parameters balances hroom h
  | parametersFrom => exact meets_parametersFrom balances hroom h
  | fallback => exact meets_fallback balances hroom h

end Step

theorem balances (row : List Lexeme) (bound : Nat) : Balances row bound := by
  induction bound with
  | zero =>
    -- There is room behind the row only.
    intro task inside s hroom h
    have hle := h.le_length
    simp only [Task.HasRoom, callsPerLexeme] at hroom
    omega
  | succ bound ih => exact balances_succ ih

/-- A row is read from its start, in no construct, and the bound leaves room for it. -/
theorem meets_readAll (row : List Lexeme) :
    (Noted.readAll row).Meets (Visit.Kept row) fun _ => True := by
  have hstart : (⟨0, 0, []⟩ : Spot).Within row [] 0 :=
    ⟨rfl, rfl, Nat.le_refl _, Nat.zero_le _⟩
  have hroom : (Task.statements .endOfInput).HasRoom row (callsPerLexeme * (row.length + 1)) 0 := by
    simp only [Task.HasRoom, Task.rank, callsPerLexeme]
    omega
  exact ((balances row _).call hroom hstart).bind fun _ _ => .pure trivial

/-- **Whatever the row, every routine that is visited finds the brackets open that are open around
it, and leaves them so** (`Visit.Kept`).  What is noted are the routines of the guarded run, and no
routine is cut short by the bound.  In a row with the end of input at its end this is how the row is
read. -/
theorem readAll_visits_kept (row : List Lexeme) :
    (Noted.readAll row).outcome = Spot.readAll row ∧
      (Noted.readAll row).outcome ≠ .error .endless ∧
      (∀ earlier, row = earlier ++ [.endOfInput] →
        (∀ lexeme ∈ earlier, lexeme.kind ≠ .endOfInput) →
          (Noted.readAll row).outcome = Guarded.plain (readAll row)) ∧
      ∀ visit ∈ (Noted.readAll row).visits, visit.Kept row := by
  have hmeets := meets_readAll row
  refine ⟨outcome_readAll row, hmeets.halts.ne_endless, ?_, hmeets.visits⟩
  rintro earlier rfl hearlier
  exact (outcome_readAll _).trans (readAll_spot hearlier)

/-- The conditional of `f({if (a) b` with `else c})` on the next line: `else` is looked for inside
the braces and the arguments. -/
theorem readAll_visits_kept_nested :
    ∃ earlier visit, (∀ lexeme ∈ earlier, lexeme.kind ≠ .endOfInput) ∧
      visit ∈ (Noted.readAll (earlier ++ [.endOfInput])).visits ∧
      visit.routine = .elseBranch 3 ∧ visit.inside = [.block, .arguments] ∧
      visit.start.isNested = true ∧ visit.Kept (earlier ++ [.endOfInput]) ∧
      (Noted.readAll (earlier ++ [.endOfInput])).outcome =
        Guarded.plain (readAll (earlier ++ [.endOfInput])) := by
  let earlier : List Lexeme := [⟨.identifier, "f"⟩, ⟨.leftParen, "("⟩, ⟨.leftBrace, "\x7b"⟩,
    ⟨.keyword .ifWord, "if"⟩, ⟨.leftParen, "("⟩, ⟨.identifier, "a"⟩, ⟨.rightParen, ")"⟩,
    ⟨.identifier, "b"⟩, ⟨.newline, "\n"⟩, ⟨.keyword .elseWord, "else"⟩, ⟨.identifier, "c"⟩,
    ⟨.rightBrace, "\x7d"⟩, ⟨.rightParen, ")"⟩]
  have hfound : ((Noted.readAll (earlier ++ [.endOfInput])).visits.any fun visit =>
      visit.routine == .elseBranch 3 && visit.inside == [.block, .arguments]) = true := by
    decide +kernel
  obtain ⟨visit, hmem, hvisit⟩ := List.any_eq_true.mp hfound
  obtain ⟨hroutine, hinside⟩ :
      visit.routine = .elseBranch 3 ∧ visit.inside = [.block, .arguments] := by simpa using hvisit
  obtain ⟨-, -, houtcome, hkept⟩ := readAll_visits_kept (earlier ++ [.endOfInput])
  have hnested := ((hkept visit hmem).nested 3 hroutine).2.2.mpr (by rw [hinside]; nofun)
  exact ⟨earlier, visit, by decide, hmem, hroutine, hinside, hnested, hkept visit hmem,
    houtcome earlier rfl (by decide)⟩

end Expr
end TypeDrift
