import Mathlib.Data.List.Basic
import TypeDrift.Proofs.Typing.Sources

/-! # Pipes, and what `c` combines

A pipe is typed by the call on its right, which goes by its own arguments and by the one that is
piped into it.  Whatever the rule of the function, this is the same as if the argument had been
written in front of the others, without a name (`Signature.result_some`); so a pipe has the type of
the call that it abbreviates, with all that is known of it (`Expr.infer_pipe`).

`c` is typed by what it is given first.  First is not what is written first: an argument with a name
is passed over, though it counts where the length is recorded (`Expr.combine_first_unnamed`).
-/
namespace TypeDrift

open Descriptor

namespace Argument

/-- The first argument without a name has this value. -/
def FirstUnnamed {ε : Type} (arguments : List (Argument ε)) (value : ε) : Prop :=
  ∃ before behind, arguments = before ++ ⟨none, some value⟩ :: behind ∧
    ∀ argument ∈ before, argument.name ≠ none

theorem firstUnnamed?_eq_some_iff {ε : Type} {arguments : List (Argument ε)} {value : ε} :
    firstUnnamed? arguments = some value ↔ FirstUnnamed arguments value := by
  constructor
  · intro h
    obtain ⟨⟨name, _⟩, hfind, rfl⟩ := Option.bind_eq_some_iff.mp h
    obtain ⟨hname, before, behind, rfl, hbefore⟩ := List.find?_eq_some_iff_append.mp hfind
    obtain rfl := Option.isNone_iff_eq_none.mp hname
    exact ⟨before, behind, rfl, fun argument hmem hnone => by simpa [hnone] using hbefore argument hmem⟩
  · rintro ⟨before, behind, rfl, hbefore⟩
    have hfind : (before ++ ⟨none, some value⟩ :: behind).find?
        (fun argument => argument.name.isNone) = some ⟨none, some value⟩ :=
      List.find?_eq_some_iff_append.mpr ⟨rfl, before, behind, rfl, fun argument hmem => by
        simpa [Option.isSome_iff_ne_none] using hbefore argument hmem⟩
    rw [firstUnnamed?, hfind]
    rfl

end Argument

namespace Expr

variable {registry : Registry} {bindings : Bindings}

/-- A call of a function by its name is typed by the name and by the arguments. -/
theorem infer_call {callee : Expr} {name : String} (h : callee.functionName? = some name)
    (range : TokenRange) (arguments : List (Argument Expr)) :
    (node range (.call callee arguments)).infer registry bindings =
      .ofCall registry (some name) none
        (arguments.map (Argument.map (typedIn registry bindings))) := by
  have hmember : memberCall? registry bindings callee = none := by
    obtain ⟨place, form⟩ := callee
    cases form with
    | member => cases h
    | _ => rfl
  rw [infer, inferForm, hmember, typed_eq_map, h]

/-! ## Pipes -/

theorem isPipe_of_spelled {operator : BinaryOperator}
    (h : operator = .pipe ∨ operator = .special "%>%") : operator.isPipe = true := by
  rcases h with rfl | rfl
  · rfl
  · decide

/-- A pipe into a call is typed as the call with one more argument. -/
theorem infer_pipe_call {operator : BinaryOperator} (hpipe : operator.isPipe = true)
    (range place place' : TokenRange) (left callee : Expr) (arguments : List (Argument Expr)) :
    (node range (.binary operator left (node place (.call callee arguments)))).infer registry bindings =
      (node place' (.call callee (⟨none, some left⟩ :: arguments))).infer registry bindings := by
  simp only [infer, inferForm, if_pos hpipe, inferPiped, ofCall_some, typed]

/-- What is no call cannot be piped into. -/
theorem infer_pipe_eq_unknown {operator : BinaryOperator} (hpipe : operator.isPipe = true)
    (range : TokenRange) (left : Expr) {right : Expr}
    (hright : ∀ callee arguments, right.form ≠ .call callee arguments) :
    (node range (.binary operator left right)).infer registry bindings = .unknown := by
  simp only [infer, inferForm, if_pos hpipe]
  obtain ⟨place, form⟩ := right
  cases form with
  | call callee arguments => exact absurd rfl (hright callee arguments)
  | _ => rfl

/-- **A pipe has the type of the call that it abbreviates**, the one with the left side as an argument
without a name in front of its own.  A pipe into anything but a call is unknown. -/
theorem infer_pipe (registry : Registry) (bindings : Bindings) {operator : BinaryOperator}
    (hoperator : operator = .pipe ∨ operator = .special "%>%") (range : TokenRange)
    (left right : Expr) :
    (∀ place callee arguments, right = node place (.call callee arguments) → ∀ place',
      (node range (.binary operator left right)).infer registry bindings =
        (node place' (.call callee (⟨none, some left⟩ :: arguments))).infer registry bindings) ∧
    ((∀ callee arguments, right.form ≠ .call callee arguments) →
      (node range (.binary operator left right)).infer registry bindings = .unknown) := by
  have hpipe := isPipe_of_spelled hoperator
  refine ⟨?_, infer_pipe_eq_unknown hpipe range left⟩
  rintro place callee arguments rfl place'
  exact infer_pipe_call hpipe range place place' left callee arguments

/-- A class that is named behind the piped argument, and a name that is no call. -/
theorem infer_pipe_structure :
    let registry := Registry.ofTagsLenient ["money"]
    let amount : Expr := node ⟨0, 1⟩ (.literal (.float "9.5"))
    let callee : Expr := node ⟨2, 3⟩ (.identifier "structure")
    let named : Argument Expr := ⟨some "class", some (node ⟨6, 7⟩ (.literal (.string "money")))⟩
    let call : Expr := node ⟨2, 8⟩ (.call callee [named])
    let piped : Expr := node ⟨0, 8⟩ (.binary .pipe amount call)
    (BinaryOperator.pipe = .pipe ∨ BinaryOperator.pipe = .special "%>%") ∧
    piped.infer registry .empty =
      (node ⟨0, 8⟩ (.call callee [⟨none, some amount⟩, named])).infer registry .empty ∧
    (piped.infer registry .empty).base = .custom "money" ∧
    (node ⟨0, 3⟩ (.binary .pipe amount callee)).infer registry .empty = .unknown := by
  intro registry amount callee named call piped
  have hoperator : BinaryOperator.pipe = .pipe ∨ BinaryOperator.pipe = .special "%>%" := .inl rfl
  have hcall := (infer_pipe registry .empty hoperator ⟨0, 8⟩ amount call).1 _ _ _ rfl ⟨0, 8⟩
  have hname := (infer_pipe registry .empty hoperator ⟨0, 3⟩ amount callee).2 nofun
  exact ⟨hoperator, hcall, by decide +kernel, hname⟩

/-! ## What `c` combines -/

/-- The signature of `c`, and what its rule comes to. -/
theorem infer_combine {callee : Expr} (h : callee.functionName? = some "c") (range : TokenRange)
    (arguments : List (Argument Expr)) :
    (node range (.call callee arguments)).infer registry bindings =
      match Argument.firstUnnamed? arguments with
      | some first => (first.infer registry bindings).withAttribute "length" (.int arguments.length)
      | none => .null := by
  have hfind : Signature.find? "c" = some (.ruled "c" .firstArgument) := by decide +kernel
  rw [infer_call h, ofCall, Option.bind_some, hfind]
  simp only [Signature.result, Signature.ruled, Argument.firstUnnamed?_map, Option.none_or,
    List.length_map, Signature.combine, if_true]
  cases Argument.firstUnnamed? arguments <;> rfl

/-- **`c` takes its type from its first argument without a name**, wherever the others stand, and its
length from all its arguments; an argument that is piped in is the first.  It is null only if there is
no such argument or if that one is null, and without arguments it always is. -/
theorem combine_first_unnamed (registry : Registry) (bindings : Bindings) {callee : Expr}
    (hcallee : callee.functionName? = some "c") (range : TokenRange)
    (arguments : List (Argument Expr)) :
    let call := node range (.call callee arguments)
    (∀ first, Argument.FirstUnnamed arguments first →
      (call.infer registry bindings).base = (first.infer registry bindings).base ∧
      (call.infer registry bindings).attribute? "length" = some (.int arguments.length)) ∧
    (∀ operator : BinaryOperator, operator.isPipe = true → ∀ place left,
      let pipe := node place (.binary operator left call)
      (pipe.infer registry bindings).base = (left.infer registry bindings).base ∧
      (pipe.infer registry bindings).attribute? "length" = some (.int (arguments.length + 1))) ∧
    ((call.infer registry bindings).base = .null →
      (¬ ∃ first, Argument.FirstUnnamed arguments first) ∨
        ∃ first, Argument.FirstUnnamed arguments first ∧
          (first.infer registry bindings).base = .null) ∧
    (arguments = [] → (call.infer registry bindings).base = .null) := by
  intro call
  have hfirst (arguments : List (Argument Expr)) (first : Expr)
      (h : Argument.FirstUnnamed arguments first) :
      (node range (.call callee arguments)).infer registry bindings =
        (first.infer registry bindings).withAttribute "length" (.int arguments.length) := by
    rw [infer_combine hcallee, Argument.firstUnnamed?_eq_some_iff.mpr h]
  refine ⟨fun first h => ?_, fun operator hpipe place left => ?_, fun hnull => ?_, ?_⟩
  · rw [hfirst arguments first h]
    exact ⟨rfl, attribute?_withAttribute_self _ _ _⟩
  · have hleft : Argument.FirstUnnamed (⟨none, some left⟩ :: arguments) left :=
      ⟨[], arguments, rfl, nofun⟩
    simp only [call, infer_pipe_call hpipe place range range, hfirst _ left hleft]
    exact ⟨rfl, attribute?_withAttribute_self _ _ _⟩
  · refine or_iff_not_imp_left.mpr fun hsome => ?_
    obtain ⟨first, h⟩ := not_not.mp hsome
    exact ⟨first, h, (congrArg base (hfirst arguments first h)).symm.trans hnull⟩
  · rintro rfl
    rw [infer_combine hcallee]
    rfl

/-- A name before the argument that counts, an empty argument behind it, and the package of `c`. -/
theorem combine_first_unnamed_qualified :
    let callee : Expr := node ⟨0, 3⟩ (.namespaced "base" "c" false)
    let half : Expr := node ⟨6, 7⟩ (.literal (.float "0.5"))
    let one : Expr := node ⟨8, 9⟩ (.literal (.integer "1L"))
    let arguments : List (Argument Expr) := [⟨some "a", some half⟩, ⟨none, some one⟩, ⟨none, none⟩]
    let call : Expr := node ⟨0, 11⟩ (.call callee arguments)
    callee.functionName? = some "c" ∧ Argument.FirstUnnamed arguments one ∧
    (call.infer .empty .empty).base = .integer ∧
    (call.infer .empty .empty).attribute? "length" = some (.int 3) := by
  intro callee half one arguments call
  have hcallee : callee.functionName? = some "c" := rfl
  have hone : Argument.FirstUnnamed arguments one :=
    ⟨[⟨some "a", some half⟩], [⟨none, none⟩], rfl, by simp⟩
  obtain ⟨hbase, hlength⟩ :=
    (combine_first_unnamed .empty .empty hcallee ⟨0, 11⟩ arguments).1 one hone
  exact ⟨hcallee, hone, hbase, hlength⟩

/-- The argument that a call of `c` is written with first. -/
def combines? (call : Expr) : Option (Argument Expr) :=
  match call.form with
  | .call callee arguments => if callee.functionName? = some "c" then arguments.head? else none
  | _ => none

/-- What is written first in a call of `c` does not decide on its type: with a name it is passed over,
and with nothing else in the call it leaves the type of null. -/
theorem combine_passes_over_named :
    (∃ script call first value, Script.read "c(a = 1L, 2.5)" = .ok script ∧
      script.expressions = [call] ∧ call.combines? = some first ∧ first.value = some value ∧
      (value.infer .empty .empty).base = .integer ∧ (call.infer .empty .empty).base = .numeric) ∧
    ∃ script call first value, Script.read "c(a = 1L)" = .ok script ∧
      script.expressions = [call] ∧ call.combines? = some first ∧ first.value = some value ∧
      (value.infer .empty .empty).base = .integer ∧ (call.infer .empty .empty).base = .null := by
  have hread {source : String} {base : BaseType}
      (h : ((Script.read source).toOption.any fun script =>
        (script.expressions.map fun call => (call.combines?.bind Argument.value).map fun value =>
          ((value.infer .empty .empty).base, (call.infer .empty .empty).base)) ==
            [some (.integer, base)]) = true) :
      ∃ script call first value, Script.read source = .ok script ∧
        script.expressions = [call] ∧ call.combines? = some first ∧ first.value = some value ∧
        (value.infer .empty .empty).base = .integer ∧ (call.infer .empty .empty).base = base := by
    obtain ⟨script, hread, htest⟩ := Script.exists_read_of_test h
    obtain ⟨call, hcall, hbases⟩ := List.map_eq_singleton_iff.mp (eq_of_beq htest)
    obtain ⟨value, hvalue, hbases⟩ := Option.map_eq_some_iff.mp hbases
    obtain ⟨first, hfirst, hvalue⟩ := Option.bind_eq_some_iff.mp hvalue
    obtain ⟨hinteger, hbase⟩ := Prod.mk.inj hbases
    exact ⟨script, call, first, value, hread, hcall, hfirst, hvalue, hinteger, hbase⟩
  exact ⟨hread (by decide +kernel), hread (by decide +kernel)⟩

end Expr
end TypeDrift
