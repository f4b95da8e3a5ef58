/-!
Log lines. What a run has to say about itself comes in levels, and only lines up to a chosen level
are written. A line names its level and the part of the program that wrote it.
-/
namespace TypeDrift.Log

/-- The levels, the most important one first. -/
inductive Level where
  | error
  | warn
  | info
  | debug
  | trace
deriving DecidableEq, Repr

namespace Level

/-- The rank of a level. -/
def rank : Level → Nat
  | error => 1
  | warn => 2
  | info => 3
  | debug => 4
  | trace => 5

/-- How a level is written: in five characters. -/
def label : Level → String
  | error => "ERROR"
  | warn => "WARN "
  | info => "INFO "
  | debug => "DEBUG"
  | trace => "TRACE"

end Level

/-- The parts of the program that write log lines. -/
inductive Origin where
  | command
  | checker
  | extraction
  | bindings
deriving DecidableEq, Repr

/-- How a part is written. -/
def Origin.label : Origin → String
  | command => "rtype"
  | checker => "rtype_checker::checker"
  | extraction => "rtype_checker::extract"
  | bindings => "rtype_checker::context"

/-- Something to be logged. -/
structure Entry where
  level : Level
  origin : Origin
  message : String
deriving DecidableEq, Repr

namespace Entry

/-- A message with its lines but the first set in. -/
def indented (message : String) : String :=
  String.join (message.toList.map fun c => if c = '\n' then "\n    " else c.toString)

/-- An entry as it is written. -/
def line (entry : Entry) : String :=
  "[" ++ entry.level.label ++ " " ++ entry.origin.label ++ "] " ++ indented entry.message ++ "\n"

end Entry

/-- The entries up to a level, as they are written. -/
def written (most : Level) (entries : List Entry) : String :=
  String.join ((entries.filter fun entry => entry.level.rank ≤ most.rank).map Entry.line)

end TypeDrift.Log
