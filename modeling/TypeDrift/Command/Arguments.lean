import TypeDrift.Command.Request

/-!
Arguments. A command line consists of switches, of one verb, and of the verb's operands. Some switches
can stand before the verb or behind it, and all others only behind it; switches and operands of a
verb can be mixed. Behind a double dash there are only operands.

Arguments are taken one by one, and the first one that cannot be taken ends it all; so does a
switch that asks for help. What concerns several arguments is looked at in the end.
-/
namespace TypeDrift.Command

/-- Why there is nothing to run. -/
inductive Stop where
  /-- The arguments make no sense. -/
  | misuse
  /-- Help is asked for. -/
  | help
  /-- The version is asked for. -/
  | version
deriving DecidableEq, Repr

/-- The verbs. -/
inductive Verb where
  | check
  | infer
  | reveal
  | builtins
deriving DecidableEq, Repr

/-- The switches. -/
inductive Switch where
  | verbose
  | quiet
  | help
  | version
  | format
  | strict
  | denyWarnings
  | dumpTokens
  | json
  | customType
deriving DecidableEq, Repr

namespace Switch

/-- The word for a switch, behind two dashes. -/
def word : Switch → String
  | verbose => "verbose"
  | quiet => "quiet"
  | help => "help"
  | version => "version"
  | format => "format"
  | strict => "strict"
  | denyWarnings => "deny-warnings"
  | dumpTokens => "dump-tokens"
  | json => "json"
  | customType => "custom-type"

/-- The letter for a switch, behind one dash. -/
def letter? : Switch → Option Char
  | verbose => some 'v'
  | quiet => some 'q'
  | help => some 'h'
  | version => some 'V'
  | _ => none

/-- Whether a switch has a value. -/
def takesValue : Switch → Bool
  | format | customType => true
  | _ => false

/-- The switches that can stand before the verb. -/
def beforeVerb : List Switch := [verbose, quiet, help, version]

end Switch

namespace Verb

/-- All verbs. -/
def all : List Verb := [check, infer, reveal, builtins]

/-- The word for a verb. -/
def word : Verb → String
  | check => "check"
  | infer => "infer"
  | reveal => "reveal"
  | builtins => "builtins"

/-- The verb that a word stands for. -/
def ofWord? (word : String) : Option Verb := all.find? fun verb => verb.word == word

/-- The switches that can stand behind a verb. -/
def switches : Verb → List Switch
  | check =>
    [.verbose, .quiet, .help, .format, .strict, .denyWarnings, .dumpTokens, .customType]
  | infer => [.verbose, .quiet, .help, .json, .customType]
  | reveal => [.verbose, .quiet, .help, .customType]
  | builtins => [.verbose, .quiet, .help]

/-- Whether a verb takes one more operand when it has so many. -/
def takesMore (count : Nat) : Verb → Bool
  | check => true
  | infer => count < 1
  | reveal => count < 2
  | builtins => false

/-- Whether the operand with this index is a path. -/
def takesPath (index : Nat) : Verb → Bool
  | check => true
  | reveal => index = 0
  | _ => false

end Verb

/-- What has been given before the verb, or behind it. -/
structure Arguments where
  verbosity : Nat := 0
  quiet : Bool := false
  strict : Bool := false
  denyWarnings : Bool := false
  dumpTokens : Bool := false
  json : Bool := false
  format : Option Format := none
  customTypes : List String := []
  operands : List String := []
deriving Repr

namespace Arguments

/-- A switch without a value is taken. But for the one that can be repeated, a switch is taken
once. -/
def takeFlag (given : Arguments) : Switch → Except Stop Arguments
  | .verbose => .ok { given with verbosity := given.verbosity + 1 }
  | .quiet => if given.quiet then .error .misuse else .ok { given with quiet := true }
  | .strict => if given.strict then .error .misuse else .ok { given with strict := true }
  | .denyWarnings =>
    if given.denyWarnings then .error .misuse else .ok { given with denyWarnings := true }
  | .dumpTokens =>
    if given.dumpTokens then .error .misuse else .ok { given with dumpTokens := true }
  | .json => if given.json then .error .misuse else .ok { given with json := true }
  | .help => .error .help
  | .version => .error .version
  | .format | .customType => .error .misuse

/-- A switch with a value is taken. -/
def takeValue (given : Arguments) (value : String) : Switch → Except Stop Arguments
  | .format =>
    match given.format, Format.ofWord? value with
    | none, some format => .ok { given with format := some format }
    | _, _ => .error .misuse
  | .customType => .ok { given with customTypes := given.customTypes ++ [value] }
  | _ => .error .misuse

/-- An operand is taken. A path is not empty. -/
def takeOperand (verb : Verb) (given : Arguments) (operand : String) : Except Stop Arguments :=
  let count := given.operands.length
  if !verb.takesMore count || (verb.takesPath count && operand.isEmpty) then .error .misuse
  else .ok { given with operands := given.operands ++ [operand] }

/-- A switch is taken by its letter. -/
def takeLetter (known : List Switch) (given : Arguments) (letter : Char) : Except Stop Arguments :=
  match known.find? fun switch => switch.letter? == some letter with
  | some switch => given.takeFlag switch
  | none => .error .misuse

/-- Whether switches exclude each other. -/
def isContradictory (given : Arguments) : Bool := given.quiet && 0 < given.verbosity

end Arguments

/-- The ways in which an argument can be spelled. -/
inductive Spelling where
  /-- A word behind two dashes, perhaps with a value behind an equals sign. -/
  | word (name : String) (value : Option String)
  /-- Letters behind one dash. -/
  | letters (letters : List Char)
  /-- Anything else, a single dash among it. -/
  | operand
deriving DecidableEq, Repr

/-- How an argument is spelled. -/
def Spelling.of (argument : String) : Spelling :=
  match argument.toList with
  | '-' :: '-' :: rest =>
    match rest.span (· != '=') with
    | (name, _ :: value) => word (String.ofList name) (some (String.ofList value))
    | (name, []) => word (String.ofList name) none
  | '-' :: letter :: more => letters (letter :: more)
  | _ => operand

namespace Verb

/-- The arguments behind a verb are taken. -/
def take (verb : Verb) (given : Arguments) : List String → Except Stop Arguments
  | [] => .ok given
  | argument :: rest =>
    if argument = "--" then rest.foldlM (Arguments.takeOperand verb) given
    else
      match Spelling.of argument with
      | .operand => (given.takeOperand verb argument).bind fun given => verb.take given rest
      | .letters letters =>
        (letters.foldlM (Arguments.takeLetter verb.switches) given).bind fun given =>
          verb.take given rest
      | .word name value =>
        match verb.switches.find? fun switch => switch.word == name with
        | none => .error .misuse
        | some switch =>
          if switch.takesValue then
            match value, rest with
            | some value, rest =>
              (given.takeValue value switch).bind fun given => verb.take given rest
            | none, value :: rest =>
              if Spelling.of value = .operand then
                (given.takeValue value switch).bind fun given => verb.take given rest
              else .error .misuse
            | none, [] => .error .misuse
          else if value.isSome then .error .misuse
          else (given.takeFlag switch).bind fun given => verb.take given rest

/-- The request that a verb makes with what has been given behind it. -/
def request? (verb : Verb) (given : Arguments) : Option Request :=
  match verb, given.operands with
  | check, first :: rest =>
    some (.check
      { paths := (first :: rest).map Path.mk
        format := given.format.getD .text
        strict := given.strict
        denyWarnings := given.denyWarnings
        dumpTokens := given.dumpTokens
        customTypes := given.customTypes })
  | infer, [expression] => some (.infer ⟨expression, given.json, given.customTypes⟩)
  | reveal, [path, name] => some (.reveal ⟨⟨path⟩, name, given.customTypes⟩)
  | builtins, [] => some .builtins
  | _, _ => none

end Verb

/-- How much is logged: errors only if the run is to be quiet, and else what the count of the
switch asks for. -/
def levelOf (quiet : Bool) (verbosity : Nat) : Log.Level :=
  if quiet then .error
  else
    match verbosity with
    | 0 => .warn
    | 1 => .info
    | 2 => .debug
    | _ => .trace

/-- The invocation that a verb makes with what has been given before and behind it. A count given
behind the verb stands, and otherwise the one given before it. -/
def invocation (verb : Verb) (before behind : Arguments) : Except Stop Invocation :=
  if before.isContradictory || behind.isContradictory then .error .misuse
  else
    match verb.request? behind with
    | none => .error .misuse
    | some request =>
      .ok
        { level :=
            levelOf (before.quiet || behind.quiet)
              (if behind.verbosity = 0 then before.verbosity else behind.verbosity)
          request := request }

/-- What comes of asking for help with words. -/
def helpWith : List String → Stop
  | [] => .help
  | [word] => if word = "help" ∨ (Verb.ofWord? word).isSome then .help else .misuse
  | _ => .misuse

/-- The invocation that arguments make, with what has been given already. -/
def readFrom (given : Arguments) : List String → Except Stop Invocation
  | [] => .error .misuse
  | argument :: rest =>
    match Spelling.of argument with
    | .letters letters =>
      (letters.foldlM (Arguments.takeLetter Switch.beforeVerb) given).bind fun given =>
        readFrom given rest
    | .word name none =>
      match Switch.beforeVerb.find? fun switch => switch.word == name with
      | some switch => (given.takeFlag switch).bind fun given => readFrom given rest
      | none => .error .misuse
    | .word _ (some _) => .error .misuse
    | .operand =>
      if argument = "help" then .error (helpWith rest)
      else
        match Verb.ofWord? argument with
        | some verb => (verb.take {} rest).bind (invocation verb given)
        | none => .error .misuse

/-- The invocation that a command line is, or why it is none. -/
def read (arguments : List String) : Except Stop Invocation := readFrom {} arguments

example : (read ["-v", "infer", "--custom-type=", "--", "-5L"]).toOption.map
    (fun i => (i.level, match i.request with | .infer r => r.expression | _ => "")) =
      some (.info, "-5L") := by
  decide +kernel

example : (read ["check", "-vq", "a.R"]).toOption.isNone = true := by decide +kernel

end TypeDrift.Command
