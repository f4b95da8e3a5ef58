import Mathlib.Data.List.TakeDrop
import Mathlib.Data.List.TakeWhile
import TypeDrift.Command.Arguments

/-! # One more switch on a command line

The arguments behind a verb are taken one by one, except that a switch with a value is taken together
with that (`Verb.Row`).  So what is taken of a row of arguments does not depend on what comes behind it,
if no switch at its end waits for a value and no double dash turns what comes into operands
(`Verb.take_append`).

The switch that asks for parse tables is remembered and otherwise changes nothing: no other argument is
taken in another way because of it (`Verb.take_dumping`).  Hence a command line that asks for a check
can be given this switch at any place behind the verb, and is then the same request with tables
(`read_dumpTokens`).
-/
namespace TypeDrift.Command

namespace Verb

/-- A switch behind which its value is to stand. -/
def wantsValue (verb : Verb) (argument : String) : Bool :=
  match Spelling.of argument with
  | .word name none => (verb.switches.find? fun switch => switch.word == name).any Switch.takesValue
  | _ => false

/-- An argument that does not want a value, taken by itself. -/
def takeOne (verb : Verb) (argument : String) (given : Arguments) : Except Stop Arguments :=
  match Spelling.of argument with
  | .operand => given.takeOperand verb argument
  | .letters letters => letters.foldlM (Arguments.takeLetter verb.switches) given
  | .word name value =>
    match verb.switches.find? fun switch => switch.word == name, value with
    | none, _ => .error .misuse
    | some switch, some value =>
      if switch.takesValue then given.takeValue value switch else .error .misuse
    | some switch, none => given.takeFlag switch

/-- A switch taken with the argument behind it. -/
def takePair (verb : Verb) (argument value : String) (given : Arguments) : Except Stop Arguments :=
  match Spelling.of argument, Spelling.of value with
  | .word name _, .operand =>
    match verb.switches.find? fun switch => switch.word == name with
    | some switch => given.takeValue value switch
    | none => .error .misuse
  | _, _ => .error .misuse

/-- The ways in which a row of arguments can begin. -/
inductive Row (verb : Verb) : List String → Prop
  | nil : Row verb []
  | operands (rest : List String) : Row verb ("--" :: rest)
  | one {argument : String} {rest : List String} (hdash : argument ≠ "--")
    (hvalue : verb.wantsValue argument = false) (hrest : Row verb rest) :
    Row verb (argument :: rest)
  | pair {argument value : String} {rest : List String} (hdash : argument ≠ "--")
    (hvalue : verb.wantsValue argument = true) (hrest : Row verb rest) :
    Row verb (argument :: value :: rest)
  /-- A switch that waits for its value. -/
  | waiting {argument : String} (hdash : argument ≠ "--")
    (hvalue : verb.wantsValue argument = true) : Row verb [argument]

theorem row (verb : Verb) : (arguments : List String) → verb.Row arguments
  | [] => .nil
  | argument :: rest => by
    by_cases hdash : argument = "--"
    · exact hdash ▸ .operands rest
    cases hvalue : verb.wantsValue argument with
    | false => exact .one hdash hvalue (verb.row rest)
    | true =>
      cases rest with
      | nil => exact .waiting hdash hvalue
      | cons value rest => exact .pair hdash hvalue (verb.row rest)

variable {verb : Verb} {argument : String}

theorem take_one (hdash : argument ≠ "--") (hvalue : verb.wantsValue argument = false)
    (given : Arguments) (rest : List String) :
    verb.take given (argument :: rest) =
      (verb.takeOne argument given).bind fun given => verb.take given rest := by
  rw [take, if_neg hdash]
  unfold takeOne
  unfold wantsValue at hvalue
  cases hspelling : Spelling.of argument with
  | operand => rfl
  | letters letters => rfl
  | word name value =>
    rw [hspelling] at hvalue
    cases hfound : verb.switches.find? fun switch => switch.word == name with
    | none =>
      simp only [hfound]
      rfl
    | some switch =>
      cases value with
      | none =>
        have hplain : switch.takesValue = false := by simpa [hfound] using hvalue
        simp [hfound, hplain]
      | some value =>
        cases htakes : switch.takesValue with
        | true => simp [hfound, htakes]
        | false =>
          simp only [hfound, htakes]
          rfl

theorem exists_switch_of_wantsValue (hvalue : verb.wantsValue argument = true) :
    ∃ name switch, Spelling.of argument = .word name none ∧
      (verb.switches.find? fun switch => switch.word == name) = some switch ∧
      switch.takesValue = true := by
  unfold wantsValue at hvalue
  split at hvalue
  · next name hspelling =>
    cases hfound : verb.switches.find? fun switch => switch.word == name with
    | none =>
      rw [hfound] at hvalue
      cases hvalue
    | some switch =>
      rw [hfound] at hvalue
      exact ⟨name, switch, hspelling, hfound, hvalue⟩
  · cases hvalue

theorem take_pair (hdash : argument ≠ "--") (hvalue : verb.wantsValue argument = true)
    (given : Arguments) (value : String) (rest : List String) :
    verb.take given (argument :: value :: rest) =
      (verb.takePair argument value given).bind fun given => verb.take given rest := by
  obtain ⟨name, switch, hspelling, hfound, htakes⟩ := exists_switch_of_wantsValue hvalue
  rw [take, if_neg hdash]
  cases hplain : Spelling.of value <;>
    simp [takePair, hspelling, hfound, htakes, hplain] <;> rfl

theorem take_waiting (hdash : argument ≠ "--") (hvalue : verb.wantsValue argument = true)
    (given : Arguments) : verb.take given [argument] = .error .misuse := by
  obtain ⟨name, switch, hspelling, hfound, htakes⟩ := exists_switch_of_wantsValue hvalue
  rw [take, if_neg hdash]
  simp only [hspelling, hfound, htakes, if_true]

/-- A row of arguments behind which a switch can be put: no double dash makes an operand of it, and no
switch takes it for a value. -/
structure Open (verb : Verb) (front : List String) : Prop where
  plain : "--" ∉ front
  last : ∀ argument ∈ front.getLast?, verb.wantsValue argument = false

theorem Open.tail {rest : List String} (h : verb.Open (argument :: rest)) : verb.Open rest := by
  refine ⟨fun hmem => h.plain (List.mem_cons_of_mem _ hmem), fun last hlast => h.last last ?_⟩
  rw [List.getLast?_cons, hlast]
  rfl

/-- What stands behind an open row is taken after it. -/
theorem take_append {front : List String} (h : verb.Open front) (given : Arguments)
    (more : List String) :
    verb.take given (front ++ more) =
      (verb.take given front).bind fun given => verb.take given more := by
  induction verb.row front generalizing given with
  | nil => rfl
  | operands rest => exact absurd List.mem_cons_self h.plain
  | @one argument rest hdash hvalue _ ih =>
    rw [List.cons_append, take_one hdash hvalue, take_one hdash hvalue]
    cases verb.takeOne argument given with
    | error stop => rfl
    | ok given => exact ih h.tail given
  | @pair argument value rest hdash hvalue _ ih =>
    rw [List.cons_append, List.cons_append, take_pair hdash hvalue, take_pair hdash hvalue]
    cases verb.takePair argument value given with
    | error stop => rfl
    | ok given => exact ih h.tail.tail given
  | @waiting argument hdash hvalue =>
    have hlast := h.last argument rfl
    rw [hvalue] at hlast
    cases hlast

end Verb

/-! ## The switch for parse tables -/

/-- Arguments up to a double dash do not ask for parse tables. -/
def Undumped (arguments : List String) : Prop :=
  "--dump-tokens" ∉ arguments.takeWhile (· ≠ "--")

instance (arguments : List String) : Decidable (Undumped arguments) :=
  inferInstanceAs (Decidable ("--dump-tokens" ∉ arguments.takeWhile (· ≠ "--")))

theorem undumped_cons {argument : String} {rest : List String} (h : Undumped (argument :: rest))
    (hdash : argument ≠ "--") : argument ≠ "--dump-tokens" ∧ Undumped rest := by
  rw [Undumped, List.takeWhile_cons_of_pos (by simpa using hdash), List.mem_cons, not_or] at h
  exact ⟨fun heq => h.1 heq.symm, h.2⟩

theorem undumped_append {front rest : List String} (hplain : "--" ∉ front) :
    Undumped (front ++ rest) ↔ "--dump-tokens" ∉ front ∧ Undumped rest := by
  have hpos : ∀ argument ∈ front, decide (argument ≠ "--") = true := by
    intro argument hmem
    exact decide_eq_true fun heq => hplain (heq ▸ hmem)
  rw [Undumped, List.takeWhile_append_of_pos hpos, List.mem_append, not_or, Undumped]

/-- A switch without a value, spelled as a word, is that word behind two dashes. -/
theorem Spelling.eq_of_of_eq_word {argument name : String}
    (h : Spelling.of argument = .word name none) : argument = "--" ++ name := by
  rw [of] at h
  split at h
  · next rest hrest =>
    split at h
    · cases h
    · next letters hspan =>
      rw [List.span_eq_takeWhile_dropWhile] at hspan
      obtain ⟨hletters, hnone⟩ := Prod.mk.inj hspan
      have hall : letters = rest := by
        rw [← List.takeWhile_append_dropWhile (p := (· != '=')) (l := rest), hletters, hnone,
          List.append_nil]
      obtain ⟨hname, -⟩ := Spelling.word.inj h
      rw [← hname, hall, ← String.toList_inj, hrest, String.toList_append, String.toList_ofList]
      simp
  · cases h
  · cases h

namespace Arguments

/-- The same arguments, with or without a wish for parse tables. -/
def dumping (dump : Bool) (given : Arguments) : Arguments := { given with dumpTokens := dump }

variable {given : Arguments} (dump : Bool)

theorem takeOperand_dumping (verb : Verb) (operand : String) :
    (given.dumping dump).takeOperand verb operand =
      (given.takeOperand verb operand).map (dumping dump) := by
  simp only [takeOperand, apply_ite (Except.map (dumping dump))]
  rfl

theorem takeFlag_dumping {switch : Switch} (h : switch ≠ .dumpTokens) :
    (given.dumping dump).takeFlag switch = (given.takeFlag switch).map (dumping dump) := by
  cases switch <;> first | exact absurd rfl h | skip
  all_goals simp only [takeFlag, apply_ite (Except.map (dumping dump))]
  all_goals rfl

theorem takeValue_dumping (value : String) (switch : Switch) :
    (given.dumping dump).takeValue value switch =
      (given.takeValue value switch).map (dumping dump) := by
  cases switch with
  | format =>
    have hformat : (given.dumping dump).format = given.format := rfl
    rw [takeValue, takeValue, hformat]
    cases given.format <;> cases Format.ofWord? value <;> rfl
  | _ => rfl

theorem takeLetter_dumping (known : List Switch) (letter : Char) :
    (given.dumping dump).takeLetter known letter =
      (given.takeLetter known letter).map (dumping dump) := by
  rw [takeLetter, takeLetter]
  cases hfound : known.find? fun switch => switch.letter? == some letter with
  | none => rfl
  | some switch =>
    have hletter := List.find?_some hfound
    refine takeFlag_dumping dump fun hswitch => ?_
    rw [hswitch] at hletter
    cases hletter

theorem foldlM_dumping {α : Type} {step : Arguments → α → Except Stop Arguments}
    (hstep : ∀ given item, step (dumping dump given) item = (step given item).map (dumping dump))
    (items : List α) (given : Arguments) :
    items.foldlM step (given.dumping dump) = (items.foldlM step given).map (dumping dump) := by
  induction items generalizing given with
  | nil => rfl
  | cons item items ih =>
    rw [List.foldlM_cons, List.foldlM_cons, hstep]
    cases step given item with
    | error stop => rfl
    | ok given => exact ih given

end Arguments

namespace Verb
variable {verb : Verb} {argument : String} (dump : Bool)

theorem takeOne_dumping (h : argument ≠ "--dump-tokens") (given : Arguments) :
    verb.takeOne argument (given.dumping dump) =
      (verb.takeOne argument given).map (.dumping dump) := by
  rw [takeOne, takeOne]
  cases hspelling : Spelling.of argument with
  | operand => exact Arguments.takeOperand_dumping dump verb argument
  | letters letters =>
    exact Arguments.foldlM_dumping dump
      (fun _ letter => Arguments.takeLetter_dumping dump verb.switches letter) letters given
  | word name value =>
    dsimp only
    cases hfound : verb.switches.find? fun switch => switch.word == name with
    | none => rfl
    | some switch =>
      cases value with
      | some value =>
        cases htakes : switch.takesValue with
        | false => simp [htakes, Except.map]
        | true => simpa [htakes] using Arguments.takeValue_dumping dump value switch
      | none =>
        refine Arguments.takeFlag_dumping dump fun hswitch => h ?_
        have hword : switch.word = name := by simpa using List.find?_some hfound
        rw [Spelling.eq_of_of_eq_word hspelling, ← hword, hswitch]
        rfl

theorem takePair_dumping (value : String) (given : Arguments) :
    verb.takePair argument value (given.dumping dump) =
      (verb.takePair argument value given).map (.dumping dump) := by
  unfold takePair
  split
  · cases verb.switches.find? _ with
    | none => rfl
    | some switch => exact Arguments.takeValue_dumping dump value switch
  · rfl

/-- A double dash is no value. -/
theorem takePair_dash (given : Arguments) : verb.takePair argument "--" given = .error .misuse := by
  have hdash : Spelling.of "--" = .word "" none := by decide +kernel
  rw [takePair, hdash]
  cases Spelling.of argument <;> rfl

/-- **Whether parse tables are wanted changes nothing else that is taken.** -/
theorem take_dumping {arguments : List String} (h : Undumped arguments) (given : Arguments) :
    verb.take (given.dumping dump) arguments = (verb.take given arguments).map (.dumping dump) := by
  induction verb.row arguments generalizing given with
  | nil => rfl
  | operands rest =>
    rw [take, take, if_pos rfl, if_pos rfl]
    exact Arguments.foldlM_dumping dump
      (fun _ operand => Arguments.takeOperand_dumping dump verb operand) rest given
  | @one argument rest hdash hvalue _ ih =>
    obtain ⟨hother, hrest⟩ := undumped_cons h hdash
    rw [take_one hdash hvalue, take_one hdash hvalue, takeOne_dumping dump hother]
    cases verb.takeOne argument given with
    | error stop => rfl
    | ok given => exact ih hrest given
  | @pair argument value rest hdash hvalue _ ih =>
    obtain ⟨-, hrest⟩ := undumped_cons h hdash
    rw [take_pair hdash hvalue, take_pair hdash hvalue, takePair_dumping]
    by_cases hend : value = "--"
    · rw [hend, takePair_dash]
      rfl
    · cases verb.takePair argument value given with
      | error stop => rfl
      | ok given => exact ih (undumped_cons hrest hend).2 given
  | waiting hdash hvalue =>
    rw [take_waiting hdash hvalue, take_waiting hdash hvalue]
    rfl

/-- Without the switch, the wish for parse tables stays what it was. -/
theorem dumpTokens_of_take {arguments : List String} (h : Undumped arguments)
    {given taken : Arguments} (htake : verb.take given arguments = .ok taken) :
    taken.dumpTokens = given.dumpTokens := by
  have hsame : verb.take (given.dumping given.dumpTokens) arguments = _ :=
    take_dumping given.dumpTokens h given
  have hgiven : given.dumping given.dumpTokens = given := rfl
  rw [hgiven, htake] at hsame
  have htaken : taken = taken.dumping given.dumpTokens := Except.ok.inj hsame
  rw [htaken]
  rfl

theorem take_dumpTokens {given : Arguments} (hgiven : given.dumpTokens = false)
    (rest : List String) :
    check.take given ("--dump-tokens" :: rest) = check.take (given.dumping true) rest := by
  have hdash : "--dump-tokens" ≠ "--" := by decide
  have hvalue : check.wantsValue "--dump-tokens" = false := by decide +kernel
  have hone : check.takeOne "--dump-tokens" given = given.takeFlag .dumpTokens := by
    have hspelling : Spelling.of "--dump-tokens" = .word "dump-tokens" none := by decide +kernel
    rw [takeOne, hspelling]
    rfl
  rw [take_one hdash hvalue, hone, Arguments.takeFlag, hgiven]
  rfl

/-- The switch can stand at any place between arguments that are open towards it. -/
theorem take_insert {front rest : List String} (hopen : check.Open front)
    (h : Undumped (front ++ rest)) :
    check.take {} (front ++ "--dump-tokens" :: rest) =
      (check.take {} (front ++ rest)).map (.dumping true) := by
  obtain ⟨hfront, hrest⟩ := (undumped_append hopen.plain).mp h
  have halone : Undumped front := by
    rw [← List.append_nil front, undumped_append hopen.plain]
    exact ⟨hfront, List.not_mem_nil⟩
  rw [take_append hopen, take_append hopen]
  cases htake : check.take {} front with
  | error stop => rfl
  | ok given =>
    have hgiven : given.dumpTokens = false := dumpTokens_of_take halone htake
    calc check.take given ("--dump-tokens" :: rest)
        = check.take (given.dumping true) rest := take_dumpTokens hgiven rest
      _ = (check.take given rest).map (.dumping true) := take_dumping true hrest given

end Verb

/-! ## Reading -/

/-- The same request, with parse tables if it is one for a check. -/
def Invocation.withTables (invocation : Invocation) : Invocation :=
  { invocation with
    request :=
      match invocation.request with
      | .check request => .check { request with dumpTokens := true }
      | request => request }

theorem invocation_dumping (before behind : Arguments) :
    invocation .check before (behind.dumping true) =
      (invocation .check before behind).map .withTables := by
  have hsame : (behind.dumping true).isContradictory = behind.isContradictory := rfl
  rw [invocation, invocation, hsame]
  cases before.isContradictory || behind.isContradictory with
  | true => rfl
  | false =>
    cases hoperands : behind.operands with
    | nil => simp [Verb.request?, Arguments.dumping, hoperands, Except.map]
    | cons first operands =>
      simp [Verb.request?, Arguments.dumping, hoperands, Except.map, Invocation.withTables]

/-- What stands before a verb is read before it. -/
theorem exists_readFrom {before : List String}
    (hbefore : ∀ argument ∈ before, Spelling.of argument ≠ .operand) (given : Arguments) :
    ∃ result : Except Stop Arguments, ∀ behind, readFrom given (before ++ "check" :: behind) =
      result.bind fun given => (Verb.check.take {} behind).bind (invocation .check given) := by
  induction before generalizing given with
  | nil =>
    refine ⟨.ok given, fun behind => ?_⟩
    have hspelling : Spelling.of "check" = .operand := by decide +kernel
    have hverb : Verb.ofWord? "check" = some .check := by decide +kernel
    have hhelp : "check" ≠ "help" := by decide
    rw [List.nil_append, readFrom, hspelling]
    simp only [hhelp, if_false, hverb]
    rfl
  | cons argument before ih =>
    have hargument := hbefore argument List.mem_cons_self
    have ih := ih fun argument hmem => hbefore argument (List.mem_cons_of_mem _ hmem)
    simp only [List.cons_append, readFrom]
    cases hspelling : Spelling.of argument with
    | operand => exact absurd hspelling hargument
    | letters letters =>
      dsimp only
      cases letters.foldlM (Arguments.takeLetter Switch.beforeVerb) given with
      | error stop => exact ⟨.error stop, fun _ => rfl⟩
      | ok given => exact ih given
    | word name value =>
      cases value with
      | some value => exact ⟨.error .misuse, fun _ => rfl⟩
      | none =>
        dsimp only
        cases Switch.beforeVerb.find? fun switch => switch.word == name with
        | none => exact ⟨.error .misuse, fun _ => rfl⟩
        | some switch =>
          dsimp only
          cases given.takeFlag switch with
          | error stop => exact ⟨.error stop, fun _ => rfl⟩
          | ok given => exact ih given

section Read
variable {before front rest : List String}
  (hbefore : ∀ argument ∈ before, Spelling.of argument ≠ .operand)
include hbefore

/-- **Asking for parse tables makes the same request with tables.** -/
theorem read_dumpTokens (hopen : Verb.check.Open front) (h : Undumped (front ++ rest)) :
    read (before ++ "check" :: (front ++ "--dump-tokens" :: rest)) =
      (read (before ++ "check" :: (front ++ rest))).map .withTables := by
  obtain ⟨result, hresult⟩ := exists_readFrom hbefore {}
  rw [read, read, hresult, hresult, Verb.take_insert hopen h]
  cases result with
  | error stop => rfl
  | ok given =>
    cases Verb.check.take {} (front ++ rest) with
    | error stop => rfl
    | ok taken => exact invocation_dumping given taken

/-- What is read with the word for a check in front is a check, without tables if none are asked
for. -/
theorem exists_check_of_read {behind : List String} (h : Undumped behind) {invocation : Invocation}
    (hread : read (before ++ "check" :: behind) = .ok invocation) :
    ∃ level request, invocation = ⟨level, .check request⟩ ∧ request.dumpTokens = false := by
  obtain ⟨result, hresult⟩ := exists_readFrom hbefore {}
  rw [read, hresult] at hread
  cases result with
  | error stop => cases hread
  | ok given =>
    cases htake : Verb.check.take {} behind with
    | error stop =>
      rw [htake] at hread
      cases hread
    | ok taken =>
      have htables : taken.dumpTokens = false := Verb.dumpTokens_of_take h htake
      have hinvocation : Command.invocation .check given taken = .ok invocation := by
        rwa [htake] at hread
      rw [Command.invocation] at hinvocation
      split at hinvocation
      · cases hinvocation
      · split at hinvocation
        · cases hinvocation
        · next request hrequest =>
          rw [← Except.ok.inj hinvocation]
          cases hoperands : taken.operands with
          | nil => simp [Verb.request?, hoperands] at hrequest
          | cons first operands =>
            simp only [Verb.request?, hoperands, Option.some.injEq] at hrequest
            rw [← hrequest]
            exact ⟨_, _, rfl, htables⟩

end Read
end TypeDrift.Command
