import Mathlib.Order.Filter.AtTopBot.Basic
import TypeDrift.Proofs.Expr.Shift

/-! # Every derivation is run

A derivation is read under every bound that is large enough (`Reads.eventually_run`), and since a
bound above the size of a call does not matter, under each of these (`Task.run_eq_ok_iff`).  So the
derivations are exactly what is read, and to read a whole text is to have a derivation for its
lexemes (`readAll_eq_ok_iff`).
-/
namespace TypeDrift.Expr

open Cursor Filter

/-! ## Bounds above the size -/

theorem renumber_shift_zero_eq_id : renumber (.shift 0) = id :=
  funext renumber_shift_zero

theorem shifted_zero {α : Type} {f : α → α} (h : f = id) (x : Except Refusal (α × Cursor)) :
    shifted 0 f x = x := by
  subst h
  obtain refusal | ⟨result, c⟩ := x <;> rfl

/-- **The bound is not met**: above the size of a call, it makes no difference. -/
theorem Task.run_eq_run {task : Task} {c : Cursor} {bound bound' : Nat}
    (h : task.size c < bound) (h' : task.size c < bound') :
    task.run bound c = task.run bound' c := by
  have hshift := task.run_shift 0 h' h
  -- Read nothing later under another bound: no index is changed.
  have hid := renumber_shift_zero_eq_id
  have hoption : Option.map (Expr.renumber (.shift 0)) = id := by rw [hid, Option.map_id]
  have hlist : List.map (Expr.renumber (.shift 0)) = id := by rw [hid, List.map_id_fun]
  have hargument : Argument.map (Expr.renumber (.shift 0)) = id := by rw [hid, argument_map_id]
  have hparameter : Parameter.map (Expr.renumber (.shift 0)) = id := by rw [hid, parameter_map_id]
  have harguments : List.map (Argument.map (Expr.renumber (.shift 0))) = id := by
    rw [hargument, List.map_id_fun]
  have hparameters : List.map (Parameter.map (Expr.renumber (.shift 0))) = id := by
    rw [hparameter, List.map_id_fun]
  cases task with
  | continuation power left =>
    have hsame : Expr.continuation bound power (left.renumber (.shift 0)) c =
        Expr.continuation bound' power left c := hshift.trans (shifted_zero hid _)
    rwa [renumber_shift_zero] at hsame
  | expression _ | operand | header => exact hshift.trans (shifted_zero hid _)
  | alternative | argumentValue _ | fallback => exact hshift.trans (shifted_zero hoption _)
  | statements _ => exact hshift.trans (shifted_zero hlist _)
  | arguments _ | argumentsFrom _ => exact hshift.trans (shifted_zero harguments _)
  | argument _ => exact hshift.trans (shifted_zero hargument _)
  | parameters | parametersFrom => exact hshift.trans (shifted_zero hparameters _)

/-! ## Large bounds -/

theorem bind_eq_of_ok {ε α β : Type} {x : Except ε α} {f : α → Except ε β} {a : α}
    {outcome : Except ε β} (h : x = .ok a) (hf : f a = outcome) : x >>= f = outcome := by
  subst h
  exact hf

theorem expect_eq_ok {kind : Kind} {c : Cursor} (h : c.settle.head.kind = kind) :
    c.expect kind = .ok c.settle.advance := if_pos h

theorem eventually_of_succ {p : Nat → Prop} (h : ∀ᶠ bound in atTop, p (bound + 1)) :
    ∀ᶠ bound in atTop, p bound := by
  rwa [← map_add_atTop_eq_nat 1, eventually_map]

/-- **Every derivation is run** by all bounds that are large enough. -/
theorem Reads.eventually_run {task : Task} {c c' : Cursor} {result : task.Result}
    (h : Reads task c result c') : ∀ᶠ bound in atTop, task.run bound c = .ok (result, c') := by
  -- A rule is one call deeper than its premises.
  induction h with refine eventually_of_succ ?_
  | expression _ _ ihleft ihmore =>
    filter_upwards [ihleft, ihmore] with bound hleft hmore
    rw [Task.run, read]
    exact bind_eq_of_ok hleft hmore
  | done hloose =>
    refine .of_forall fun bound => ?_
    simp only [Task.run, continuation]
    split
    · rfl
    · next step hstep =>
      rw [if_pos (hloose step hstep)]
      rfl
  | call hkind hpower _ _ ihgiven ihmore =>
    filter_upwards [ihgiven, ihmore] with bound hgiven hmore
    simp only [Task.run, continuation, hkind, if_neg (Nat.not_lt.mpr hpower)]
    exact bind_eq_of_ok hgiven hmore
  | index hkind hpower _ _ ihgiven ihmore =>
    filter_upwards [ihgiven, ihmore] with bound hgiven hmore
    simp only [Task.run, continuation, hkind, if_neg (Nat.not_lt.mpr hpower)]
    exact bind_eq_of_ok hgiven hmore
  | doubleIndex hkind hpower _ hclose _ ihgiven ihmore =>
    filter_upwards [ihgiven, ihmore] with bound hgiven hmore
    simp only [Task.run, continuation, hkind, if_neg (Nat.not_lt.mpr hpower)]
    exact bind_eq_of_ok hgiven (bind_eq_of_ok (expect_eq_ok hclose) hmore)
  | member hkind hpower hmember _ ihmore =>
    filter_upwards [ihmore] with bound hmore
    simp only [Task.run, continuation, hkind, if_neg (Nat.not_lt.mpr hpower)]
    exact bind_eq_of_ok hmember hmore
  | between hkind hpower _ _ ihright ihmore =>
    filter_upwards [ihright, ihmore] with bound hright hmore
    simp only [Task.run, continuation, hkind, if_neg (Nat.not_lt.mpr hpower)]
    exact bind_eq_of_ok hright hmore
  | leaf hopening =>
    refine .of_forall fun bound => ?_
    simp only [Task.run, operand, hopening]
    rfl
  | name hopening hname =>
    refine .of_forall fun bound => ?_
    simp only [Task.run, operand, hopening]
    exact hname
  | paren hopening _ hclose ihinner =>
    filter_upwards [ihinner] with bound hinner
    simp only [Task.run, operand, hopening]
    exact bind_eq_of_ok hinner (bind_eq_of_ok (expect_eq_ok hclose) rfl)
  | block hopening _ ihbody | sign hopening _ ihbody | tilde hopening _ ihbody
  | repeatLoop hopening _ ihbody =>
    filter_upwards [ihbody] with bound hbody
    simp only [Task.run, operand, hopening]
    exact bind_eq_of_ok hbody rfl
  | function hopening hopen _ _ ihgiven ihbody =>
    filter_upwards [ihgiven, ihbody] with bound hgiven hbody
    simp only [Task.run, operand, hopening]
    exact bind_eq_of_ok (expect_eq_ok hopen) (bind_eq_of_ok hgiven (bind_eq_of_ok hbody rfl))
  | conditional hopening _ _ _ ihcondition ihconsequent ihalternative =>
    filter_upwards [ihcondition, ihconsequent, ihalternative] with bound hcondition hconsequent
      halternative
    simp only [Task.run, operand, hopening]
    exact bind_eq_of_ok hcondition (bind_eq_of_ok hconsequent (bind_eq_of_ok halternative rfl))
  | forLoop hopening hopen hinside hcounter hin _ hclose _ ihsequence ihbody =>
    subst hinside
    filter_upwards [ihsequence, ihbody] with bound hsequence hbody
    simp only [Task.run, operand, hopening]
    refine bind_eq_of_ok (expect_eq_ok hopen) ?_
    rw [if_neg (not_not.mpr hcounter)]
    exact bind_eq_of_ok (expect_eq_ok hin) (bind_eq_of_ok hsequence
      (bind_eq_of_ok (expect_eq_ok hclose) (bind_eq_of_ok hbody rfl)))
  | whileLoop hopening _ _ ihcondition ihbody =>
    filter_upwards [ihcondition, ihbody] with bound hcondition hbody
    simp only [Task.run, operand, hopening]
    exact bind_eq_of_ok hcondition (bind_eq_of_ok hbody rfl)
  | header hopen _ hclose ihcondition =>
    filter_upwards [ihcondition] with bound hcondition
    simp only [Task.run, Expr.header]
    exact bind_eq_of_ok (expect_eq_ok hopen)
      (bind_eq_of_ok hcondition (bind_eq_of_ok (expect_eq_ok hclose) rfl))
  | elseBranch helse _ ihbranch =>
    filter_upwards [ihbranch] with bound hbranch
    simp only [Task.run, alternative_succ, if_pos helse]
    exact bind_eq_of_ok hbranch rfl
  | noElse helse =>
    refine .of_forall fun bound => ?_
    simp only [Task.run, alternative_succ, if_neg helse]
    rfl
  | noStatements hend =>
    refine .of_forall fun bound => ?_
    simp only [Task.run, Expr.statements, if_pos hend]
    rfl
  | statement hgo _ hend _ ihfirst ihothers =>
    filter_upwards [ihfirst, ihothers] with bound hfirst hothers
    simp only [Task.run, Expr.statements, if_neg hgo]
    exact bind_eq_of_ok hfirst (bind_eq_of_ok hend (bind_eq_of_ok hothers rfl))
  | noArguments hclose =>
    refine .of_forall fun bound => ?_
    simp only [Task.run, Expr.arguments, if_pos hclose]
    rfl
  | someArguments hgo _ ihgiven =>
    filter_upwards [ihgiven] with bound hgiven
    simp only [Task.run, Expr.arguments, if_neg hgo]
    exact hgiven
  | lastArgument _ hclose ihfirst =>
    filter_upwards [ihfirst] with bound hfirst
    simp only [Task.run, Expr.argumentsFrom]
    refine bind_eq_of_ok hfirst ?_
    rw [if_neg (by rw [hclose]; exact Closer.kind_ne_comma _), if_pos hclose]
    rfl
  | moreArguments _ hcomma _ ihfirst ihothers =>
    filter_upwards [ihfirst, ihothers] with bound hfirst hothers
    simp only [Task.run, Expr.argumentsFrom]
    refine bind_eq_of_ok hfirst ?_
    rw [if_pos hcomma]
    exact bind_eq_of_ok hothers rfl
  | namedArgument hname hequal _ ihvalue =>
    filter_upwards [ihvalue] with bound hvalue
    simp only [Task.run, Expr.argument, hname, if_pos hequal]
    exact bind_eq_of_ok hvalue rfl
  | plainArgument hplain _ ihvalue =>
    filter_upwards [ihvalue] with bound hvalue
    simp only [Task.run, Expr.argument]
    split
    · next name hname =>
      rw [if_neg (hplain.resolve_left (by simp [hname]))]
      exact bind_eq_of_ok hvalue rfl
    · exact bind_eq_of_ok hvalue rfl
  | noValue hend =>
    refine .of_forall fun bound => ?_
    simp only [Task.run, Expr.argumentValue, if_pos hend]
    rfl
  | value hgo _ ihvalue =>
    filter_upwards [ihvalue] with bound hvalue
    simp only [Task.run, Expr.argumentValue, if_neg hgo]
    exact bind_eq_of_ok hvalue rfl
  | noParameters hclose =>
    refine .of_forall fun bound => ?_
    simp only [Task.run, Expr.parameters, if_pos hclose]
    rfl
  | someParameters hgo _ ihgiven =>
    filter_upwards [ihgiven] with bound hgiven
    simp only [Task.run, Expr.parameters, if_neg hgo]
    exact hgiven
  | lastParameter hname _ hclose ihfallback =>
    filter_upwards [ihfallback] with bound hfallback
    simp only [Task.run, Expr.parametersFrom]
    rw [if_neg (not_not.mpr hname)]
    refine bind_eq_of_ok hfallback ?_
    rw [if_neg (by rw [hclose]; decide)]
    -- The reader has settled to look for a comma, and settles again for the parenthesis.
    exact bind_eq_of_ok (expect_eq_ok (by rwa [settle_settle])) (by rw [settle_settle]; rfl)
  | moreParameters hname _ hcomma _ ihfallback ihothers =>
    filter_upwards [ihfallback, ihothers] with bound hfallback hothers
    simp only [Task.run, Expr.parametersFrom]
    rw [if_neg (not_not.mpr hname)]
    refine bind_eq_of_ok hfallback ?_
    rw [if_pos hcomma]
    exact bind_eq_of_ok hothers rfl
  | fallback hequal _ ihvalue =>
    filter_upwards [ihvalue] with bound hvalue
    simp only [Task.run, Expr.fallback, if_pos hequal]
    exact bind_eq_of_ok hvalue rfl
  | noFallback hequal =>
    refine .of_forall fun bound => ?_
    simp only [Task.run, Expr.fallback, if_neg hequal]
    rfl

/-- **To be read is to have a derivation**, under every bound above the size of the call. -/
theorem Task.run_eq_ok_iff {task : Task} {c c' : Cursor} {bound : Nat} {result : task.Result}
    (h : task.size c < bound) :
    task.run bound c = .ok (result, c') ↔ Reads task c result c' := by
  refine ⟨task.reads_of_run, fun hreads => ?_⟩
  obtain ⟨large, hrun, hlarge⟩ :=
    (hreads.eventually_run.and (eventually_gt_atTop (task.size c))).exists
  exact (run_eq_run h hlarge).trans hrun

theorem size_lt_readAll (lexemes : List Lexeme) :
    (Task.statements .endOfInput).size (.ofLexemes lexemes) <
      callsPerLexeme * (lexemes.length + 1) := by
  simp only [Task.size, Task.rank, callsPerLexeme, ofLexemes]
  omega

/-- What is read from a whole row of lexemes. -/
theorem readAll_eq_ok_iff {lexemes : List Lexeme} {es : List Expr} :
    readAll lexemes = .ok es ↔
      ∃ c, Reads (.statements .endOfInput) (.ofLexemes lexemes) es c := by
  have hiff (c : Cursor) :
      statements (callsPerLexeme * (lexemes.length + 1)) .endOfInput (.ofLexemes lexemes) =
          .ok (es, c) ↔
        Reads (.statements .endOfInput) (.ofLexemes lexemes) es c :=
    Task.run_eq_ok_iff (size_lt_readAll lexemes)
  constructor
  · intro h
    obtain ⟨⟨es', c⟩, hrun, hes⟩ := exists_of_bind_eq_ok h
    cases hes
    exact ⟨c, (hiff c).mp hrun⟩
  · rintro ⟨c, hreads⟩
    exact bind_eq_of_ok ((hiff c).mpr hreads) rfl

end TypeDrift.Expr
