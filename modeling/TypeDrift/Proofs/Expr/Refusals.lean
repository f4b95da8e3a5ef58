import TypeDrift.Proofs.Expr.Progress

/-! # What is refused lies ahead

A refusal is the next lexeme of some place that the reader has come to (`Task.refusesAhead_run`), so
its index is that of a lexeme of the row: the end of input at the latest, which no reader passes.
-/
namespace TypeDrift

namespace Cursor

/-- If the outcome is a refusal, it is the next lexeme of a place ahead. -/
def RefusesAhead {α : Type} (c : Cursor) (outcome : Except Refusal α) : Prop :=
  ∀ refusal, outcome = .error refusal → ∃ d, c.Reaches d ∧ refusal = d.refusal

variable {α β : Type} {c d : Cursor}

theorem refusesAhead_ok (a : α) : c.RefusesAhead (.ok a) := nofun

theorem refusesAhead_refusal (h : c.Reaches d) :
    c.RefusesAhead (.error d.refusal : Except Refusal α) := fun _ hrefusal =>
  ⟨d, h, (Except.error.inj hrefusal).symm⟩

theorem RefusesAhead.of_reaches {outcome : Except Refusal α} (h : c.Reaches d)
    (hd : d.RefusesAhead outcome) : c.RefusesAhead outcome := fun refusal hrefusal =>
  have ⟨e, hreach, heq⟩ := hd refusal hrefusal
  ⟨e, h.trans hreach, heq⟩

theorem refusesAhead_bind {x : Except Refusal α} {next : α → Except Refusal β}
    (hx : c.RefusesAhead x) (hnext : ∀ a, x = .ok a → c.RefusesAhead (next a)) :
    c.RefusesAhead (x >>= next) := by
  cases x with
  | error refusal => exact fun _ hrefusal => hx _ (congrArg Except.error (Except.error.inj hrefusal))
  | ok a => exact hnext a rfl

theorem refusesAhead_expect_bind {kind : Kind} {next : Cursor → Except Refusal β}
    (h : c.Reaches d)
    (hnext : d.settle.head.kind = kind → c.RefusesAhead (next d.settle.advance)) :
    c.RefusesAhead (d.expect kind >>= next) := by
  refine refusesAhead_bind (fun refusal hrefusal => ?_) fun after hafter => ?_
  · simp only [expect] at hrefusal
    split at hrefusal
    · cases hrefusal
    · exact ⟨d.settle, h.trans (reaches_settle d), (Except.error.inj hrefusal).symm⟩
  · simp only [expect] at hafter
    split at hafter
    · next hkind =>
      cases hafter
      exact hnext hkind
    · cases hafter

end Cursor

namespace Expr

open Cursor

theorem refusesAhead_readName (start : Nat) (first : Lexeme) (c : Cursor) :
    c.RefusesAhead (readName start first c) := by
  simp only [readName]
  split
  · split
    · exact refusesAhead_ok _
    · exact refusesAhead_refusal ((reaches_advance c).trans (reaches_settle _))
  · exact refusesAhead_ok _

theorem refusesAhead_readMember (left : Expr) (slot : Bool) (c : Cursor) :
    c.RefusesAhead (readMember left slot c) := by
  simp only [readMember]
  split
  · exact refusesAhead_ok _
  · exact refusesAhead_refusal (reaches_skipNewlines c)

theorem refusesAhead_expectEnd {c d : Cursor} (terminator : Kind) (h : c.Reaches d) :
    c.RefusesAhead (expectEnd terminator d) := by
  unfold expectEnd
  split
  · exact refusesAhead_ok _
  · exact refusesAhead_refusal h

/-- With this bound, every refusal lies ahead. -/
def Refusing (bound : Nat) : Prop := ∀ {task : Task} {c : Cursor}, c.RefusesAhead (task.run bound c)

section Step
variable {bound : Nat} (refusing : Refusing bound) {c : Cursor}
include refusing

/-- A call further ahead, as the last step of a call. -/
theorem Refusing.ahead (task : Task) {d : Cursor} (h : c.Reaches d) :
    c.RefusesAhead (task.run bound d) := refusing.of_reaches h

/-- A call further ahead, as a step of a call. -/
theorem Refusing.bind {β : Type} (task : Task) {d : Cursor}
    {next : task.Result × Cursor → Except Refusal β} (h : c.Reaches d)
    (hnext : ∀ result c₁, c.Reaches c₁ → c.RefusesAhead (next (result, c₁))) :
    c.RefusesAhead (task.run bound d >>= next) :=
  refusesAhead_bind (refusing.ahead task h) fun read hrun =>
    hnext read.1 read.2 (h.trans (task.reads_of_run hrun).reaches)

theorem refusesAhead_continuation (power : Nat) (left : Expr) :
    c.RefusesAhead (continuation (bound + 1) power left c) := by
  simp only [continuation]
  split
  · exact refusesAhead_ok _
  · next step _ =>
    split
    · exact refusesAhead_ok _
    · have htaken := reaches_settle_advance c
      cases step with
      | call =>
        refine refusing.bind (.arguments .paren) htaken fun given c₁ hreach => ?_
        exact refusing.ahead (.continuation power _) hreach
      | index double =>
        refine refusing.bind (.arguments .bracket) htaken fun given c₁ hreach => ?_
        cases double with
        | false => exact refusing.ahead (.continuation power _) hreach
        | true =>
          refine refusesAhead_expect_bind hreach fun _ => ?_
          exact refusing.ahead (.continuation power _) (hreach.trans (reaches_settle_advance c₁))
      | member slot =>
        refine refusesAhead_bind (.of_reaches htaken (refusesAhead_readMember left slot _)) ?_
        rintro ⟨whole, c₁⟩ hmember
        exact refusing.ahead (.continuation power whole)
          (htaken.trans (Reads.reaches_readMember hmember))
      | between level =>
        refine refusing.bind (.expression level.rightPower)
          (htaken.trans (reaches_skipNewlines _)) fun right c₁ hreach => ?_
        exact refusing.ahead (.continuation power _) hreach

theorem refusesAhead_operand : c.RefusesAhead (operand (bound + 1) c) := by
  have htaken := reaches_settle_advance c
  have hskipped := htaken.trans (reaches_skipNewlines _)
  simp only [operand]
  -- The openings in their order, behind what nothing begins with.
  split
  · exact refusesAhead_refusal (reaches_settle c)
  · exact refusesAhead_ok _
  · exact .of_reaches htaken (refusesAhead_readName _ _ _)
  · refine refusing.bind (.expression _) htaken fun inner c₁ hreach => ?_
    exact refusesAhead_expect_bind hreach fun _ => refusesAhead_ok _
  · exact refusing.bind (.statements .rightBrace) htaken fun _ _ _ => refusesAhead_ok _
  · exact refusing.bind (.expression _) hskipped fun _ _ _ => refusesAhead_ok _
  · exact refusing.bind (.expression _) hskipped fun _ _ _ => refusesAhead_ok _
  · refine refusesAhead_expect_bind htaken fun _ => ?_
    refine refusing.bind .parameters (htaken.trans (reaches_settle_advance _)) ?_
    intro given c₁ hreach
    exact refusing.bind (.expression _) (hreach.trans (reaches_skipNewlines c₁))
      fun _ _ _ => refusesAhead_ok _
  · refine refusing.bind .header htaken fun condition c₁ hcondition => ?_
    refine refusing.bind (.expression _) hcondition fun consequent c₂ hconsequent => ?_
    exact refusing.bind .alternative hconsequent fun _ _ _ => refusesAhead_ok _
  · refine refusesAhead_expect_bind htaken fun _ => ?_
    have hinside : c.Reaches (c.settle.advance.settle.advance.enter .round).settle :=
      htaken.trans ((reaches_settle_advance _).trans (reaches_settle (enter _ .round)))
    split
    · exact refusesAhead_refusal hinside
    · have hcounter := hinside.trans (reaches_advance _)
      refine refusesAhead_expect_bind hcounter fun _ => ?_
      refine refusing.bind (.expression _) (hcounter.trans (reaches_settle_advance _)) ?_
      intro sequence c₁ hsequence
      refine refusesAhead_expect_bind hsequence fun _ => ?_
      have hclosed : c.Reaches c₁.settle.advance.leave.skipNewlines :=
        hsequence.trans ((reaches_settle_advance c₁).trans (reaches_skipNewlines (leave _)))
      exact refusing.bind (.expression _) hclosed fun _ _ _ => refusesAhead_ok _
  · refine refusing.bind .header htaken fun condition c₁ hcondition => ?_
    exact refusing.bind (.expression _) hcondition fun _ _ _ => refusesAhead_ok _
  · exact refusing.bind (.expression _) hskipped fun _ _ _ => refusesAhead_ok _

theorem refusesAhead_argumentsFrom (closer : Closer) :
    c.RefusesAhead (argumentsFrom (bound + 1) closer.kind c) := by
  simp only [argumentsFrom]
  refine refusing.bind (.argument closer) (.refl c) fun first c₁ hreach => ?_
  split
  · exact refusing.bind (.argumentsFrom closer) (hreach.trans (reaches_settle_advance c₁))
      fun _ _ _ => refusesAhead_ok _
  · split
    · exact refusesAhead_ok _
    · exact refusesAhead_refusal (hreach.trans (reaches_settle c₁))

theorem refusesAhead_argument (closer : Closer) :
    c.RefusesAhead (argument (bound + 1) closer.kind c) := by
  have hsettle := reaches_settle c
  simp only [argument]
  split
  · split
    · exact refusing.bind (.argumentValue closer)
        ((reaches_settle_advance c).trans (reaches_settle_advance _)) fun _ _ _ => refusesAhead_ok _
    · exact refusing.bind (.argumentValue closer) hsettle fun _ _ _ => refusesAhead_ok _
  · exact refusing.bind (.argumentValue closer) hsettle fun _ _ _ => refusesAhead_ok _

theorem refusesAhead_parametersFrom : c.RefusesAhead (parametersFrom (bound + 1) c) := by
  simp only [parametersFrom]
  split
  · exact refusesAhead_refusal (reaches_settle c)
  · refine refusing.bind .fallback (reaches_settle_advance c) fun fallback c₁ hreach => ?_
    split
    · exact refusing.bind .parametersFrom (hreach.trans (reaches_settle_advance c₁))
        fun _ _ _ => refusesAhead_ok _
    · exact refusesAhead_expect_bind (hreach.trans (reaches_settle c₁)) fun _ => refusesAhead_ok _

theorem refusing_succ : Refusing (bound + 1) := by
  intro task c
  cases task with
  | expression power =>
    simp only [Task.run, read]
    exact refusing.bind .operand (.refl c) fun left c₁ hreach =>
      refusing.ahead (.continuation power left) hreach
  | continuation power left => exact refusesAhead_continuation refusing power left
  | operand => exact refusesAhead_operand refusing
  | header =>
    simp only [Task.run, Expr.header]
    refine refusesAhead_expect_bind (.refl c) fun _ => ?_
    refine refusing.bind (.expression _) (reaches_settle_advance c) fun condition c₁ hreach => ?_
    exact refusesAhead_expect_bind hreach fun _ => refusesAhead_ok _
  | alternative =>
    simp only [Task.run, alternative_succ]
    split
    · exact refusing.bind (.expression _) ((reaches_beforeElse c).trans
        ((reaches_advance _).trans (reaches_skipNewlines _))) fun _ _ _ => refusesAhead_ok _
    · exact refusesAhead_ok _
  | statements terminator =>
    simp only [Task.run, Expr.statements]
    split
    · exact refusesAhead_ok _
    · refine refusing.bind (.expression _) (reaches_skipSeparators c) fun first c₁ hreach => ?_
      refine refusesAhead_bind (refusesAhead_expectEnd terminator hreach) fun _ _ => ?_
      exact refusing.bind (.statements terminator) hreach fun _ _ _ => refusesAhead_ok _
  | arguments closer =>
    simp only [Task.run, Expr.arguments]
    split
    · exact refusesAhead_ok _
    · exact refusing.ahead (.argumentsFrom closer) (reaches_settle c)
  | argumentsFrom closer => exact refusesAhead_argumentsFrom refusing closer
  | argument closer => exact refusesAhead_argument refusing closer
  | argumentValue closer =>
    simp only [Task.run, Expr.argumentValue]
    split
    · exact refusesAhead_ok _
    · exact refusing.bind (.expression _) (reaches_settle c) fun _ _ _ => refusesAhead_ok _
  | parameters =>
    simp only [Task.run, Expr.parameters]
    split
    · exact refusesAhead_ok _
    · exact refusing.ahead .parametersFrom (reaches_settle c)
  | parametersFrom => exact refusesAhead_parametersFrom refusing
  | fallback =>
    simp only [Task.run, Expr.fallback]
    split
    · exact refusing.bind (.expression _) (reaches_settle_advance c) fun _ _ _ => refusesAhead_ok _
    · exact refusesAhead_ok _

end Step

theorem refusing (bound : Nat) : Refusing bound := by
  induction bound with
  | zero =>
    intro task c
    cases task <;> exact refusesAhead_refusal (.refl c)
  | succ bound ih => exact refusing_succ ih

/-- **What is refused lies ahead**, whatever the bound. -/
theorem Task.refusesAhead_run (task : Task) (bound : Nat) (c : Cursor) :
    c.RefusesAhead (task.run bound c) := refusing bound

end Expr
end TypeDrift
