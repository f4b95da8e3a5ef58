import TypeDrift.Check.File
import TypeDrift.Command.Excerpt
import TypeDrift.Command.Arguments
import TypeDrift.Command.Transcript
import TypeDrift.Data.Json
import TypeDrift.Data.Yaml.Block
import TypeDrift.Script.Table

/-!
Runs. A run takes an invocation to a transcript, given the files that it can see.

To check files, they are first collected: a file that is named is taken as it is, and of a
directory all files below it whose names end like those of scripts, each path once and in the order
of paths. Then each is checked, and in the end all outcomes are given in one of the formats.
-/
namespace TypeDrift.Command

/-- The failure of a run with a tag that cannot be registered. -/
def tagFailure (error : RegistryError) : Failure := ⟨"invalid --custom-type", [error.message]⟩

/-! ### Checking files -/

/-- Files that are taken to be scripts. -/
def isScript (path : Path) : Bool :=
  path.extension? == some "R" || path.extension? == some "r"

/-- The failure of a run that is given a path which leads nowhere. -/
def walkFailure (path : Path) (error : ReadError) : Failure :=
  ⟨"failed to walk " ++ path.text,
    ["IO error for operation on " ++ path.text ++ ": " ++ error.message, error.message]⟩

/-- Sorted paths with those that a path stands for. -/
def collectPath (tree : FileTree) (found : List Path) (path : Path) :
    Except Failure (List Path) :=
  if tree.isFile path then .ok (path.insert found)
  else
    match tree.filesBelow path with
    | .ok paths => .ok ((paths.filter isScript).foldl (fun found path => path.insert found) found)
    | .error error => .error (walkFailure path error)

/-- The files that some paths stand for, sorted. -/
def collect (tree : FileTree) (paths : List Path) : Except Failure (List Path) :=
  paths.foldlM (collectPath tree) []

/-- The parse table of the file at a path, with its name above it. A file that is no script is
logged, and one that cannot be read makes the run fail. -/
def dump (tree : FileTree) (path : Path) : Except Failure (String × List Log.Entry) :=
  match SourceFile.read tree path with
  | .error error => .error ⟨SourceFile.readFailure path, [error.message]⟩
  | .ok source =>
    match Script.read source.contents with
    | .ok script => .ok (tree.shown path ++ "\n" ++ script.table.render, [])
    | .error fault =>
      .ok ("", [⟨.warn, .command, tree.shown path ++ ": " ++ fault.text⟩])

/-- What comes of checking files before their outcomes are given. -/
structure Progress where
  tables : String
  log : List Log.Entry
  failure : Option Failure
deriving Repr

/-- The progress of a run through some files. It ends where a table is wanted and cannot be had. -/
def progress (checker : Checker) (tree : FileTree) (dumpTokens : Bool) : List Path → Progress
  | [] => ⟨"", [], none⟩
  | path :: paths =>
    match if dumpTokens then dump tree path else .ok ("", []) with
    | .error failure => ⟨"", [], some failure⟩
    | .ok (table, entries) =>
      let rest := progress checker tree dumpTokens paths
      ⟨table ++ rest.tables, entries ++ checker.fileLog tree path ++ rest.log, rest.failure⟩

/-- A file that has been checked. -/
structure Checked where
  path : Path
  outcome : Outcome

/-- A checked file as a record. -/
def Checked.toData (tree : FileTree) (checked : Checked) : Data :=
  .record (("path", .text (tree.shown checked.path)) :: checked.outcome.fields)

/-- The outcomes of all files as data. -/
def documentOf (tree : FileTree) (results : List Checked) : Data :=
  .list (results.map (Checked.toData tree))

/-- The report of a checked file under its name. -/
def Checked.report (tree : FileTree) (checked : Checked) : String :=
  tree.shown checked.path ++ "\n" ++ checked.outcome.report

/-- The findings of a checked file with its lines. -/
def Checked.annotations (tree : FileTree) (checked : Checked) : String :=
  let source := (SourceFile.read tree checked.path).toOption
  String.join (checked.outcome.findings.map
    (Excerpt.render (tree.shown checked.path) source))

/-- What is printed of outcomes on the standard output. -/
def Format.output (tree : FileTree) (results : List Checked) : Format → String
  | text => String.intercalate "\n" (results.map (Checked.report tree))
  | annotated => ""
  | json => (documentOf tree results).json ++ "\n"
  | yaml => (documentOf tree results).yaml ++ "\n"

/-- What is printed of outcomes on the standard error. -/
def Format.errors (tree : FileTree) (results : List Checked) : Format → String
  | annotated => String.join (results.map (Checked.annotations tree))
  | _ => ""

/-- Whether a checked file makes the run fail. -/
def Checked.fails (denyWarnings : Bool) (checked : Checked) : Bool :=
  checked.outcome.hasErrors || (denyWarnings && checked.outcome.hasWarnings)

/-- The failure of a run in which files fail, if any do. -/
def checkFailure? (denyWarnings : Bool) (results : List Checked) : Option Failure :=
  match (results.filter (Checked.fails denyWarnings)).length with
  | 0 => none
  | count => some ⟨toString count ++ " file(s) failed type checking", []⟩

/-- The run of a checker over some files. -/
def checkFiles (checker : Checker) (tree : FileTree) (level : Log.Level) (request : CheckRequest)
    (paths : List Path) : Transcript :=
  let opening : Log.Entry :=
    ⟨.info, .command, "checking " ++ toString paths.length ++ " file(s)"⟩
  let progress := progress checker tree request.dumpTokens paths
  let logged := Log.written level (opening :: progress.log)
  match progress.failure with
  | some failure => .ending progress.tables logged (some failure)
  | none =>
    let results := paths.map fun path => Checked.mk path (checker.checkFile tree path)
    .ending (progress.tables ++ request.format.output tree results)
      (logged ++ request.format.errors tree results)
      (checkFailure? request.denyWarnings results)

/-- A run that checks files. -/
def runCheck (tree : FileTree) (level : Log.Level) (request : CheckRequest) : Transcript :=
  match Checker.ofTags request.customTypes request.strict with
  | .error error => .failing (tagFailure error)
  | .ok checker =>
    match collect tree request.paths with
    | .error failure => .failing failure
    | .ok [] => .failing ⟨"no R files found", []⟩
    | .ok paths => checkFiles checker tree level request paths

/-! ### Other requests -/

/-- A run that types an expression. -/
def runInfer (request : InferRequest) : Transcript :=
  match Registry.ofTags request.customTypes with
  | .error error => .failing (tagFailure error)
  | .ok registry =>
    match Script.read request.expression with
    | .error fault => .failing ⟨"cannot parse expression: " ++ fault.text, []⟩
    | .ok script =>
      let descriptor := script.infer registry .empty
      .ending ((if request.json then descriptor.toData.json else descriptor.describe) ++ "\n") ""
        none

/-- A run that looks up a name in what a file binds. -/
def runReveal (tree : FileTree) (level : Log.Level) (request : RevealRequest) : Transcript :=
  match Checker.ofTags request.customTypes false with
  | .error error => .failing (tagFailure error)
  | .ok checker =>
    let outcome := checker.checkFile tree request.path
    let logged := Log.written level (checker.fileLog tree request.path)
    let shown := tree.shown request.path
    if outcome.hasErrors then
      let errors := outcome.errors.map fun finding => "error: " ++ finding.message ++ "\n"
      .ending "" (logged ++ String.join errors) (some ⟨"failed to check " ++ shown, []⟩)
    else
      match outcome.bindings.lookup? request.name with
      | some descriptor =>
        .ending (request.name ++ ": " ++ descriptor.describe ++ "\n") logged none
      | none =>
        .ending "" logged
          (some ⟨"`" ++ request.name ++ "` is never assigned in " ++ shown, []⟩)

/-- A family of signatures as it is listed. -/
def familyText (family : Family) : String :=
  let line := fun (signature : Signature) =>
    match signature.expects with
    | some base => "  " ++ signature.name ++ " (expects " ++ base.tag ++ ")\n"
    | none => "  " ++ signature.name ++ "\n"
  family.name ++ ": " ++ family.description ++ "\n" ++
    String.join (family.signatures.map line)

/-- A run that lists the known functions. -/
def runBuiltins : Transcript :=
  .ending (String.intercalate "\n" (Family.all.map familyText)) "" none

/-! ### All runs -/

/-- The run of an invocation. -/
def run (tree : FileTree) (invocation : Invocation) : Transcript :=
  match invocation.request with
  | .check request => runCheck tree invocation.level request
  | .infer request => runInfer request
  | .reveal request => runReveal tree invocation.level request
  | .builtins => runBuiltins

/-- How the program is used. -/
def usage : String :=
  String.join
    ["Usage: rtype [-v...] [-q] <COMMAND>\n\nCommands:\n",
      "  check [OPTIONS] <PATH>...        Check scripts for names that change their type.\n",
      "  infer [OPTIONS] <EXPR>           Print the type of an expression.\n",
      "  reveal [OPTIONS] <PATH> <NAME>   Print the type that a name has in the end.\n",
      "  builtins                         List the known functions.\n\nOptions:\n",
      "  -v, --verbose         Log more; can be repeated.\n",
      "  -q, --quiet           Log errors only.\n",
      "  -h, --help            Print this help.\n",
      "  -V, --version         Print the version.\n",
      "  --custom-type <TAG>   Take objects of this class for a type of their own.\n",
      "  --format <FORMAT>     check: text, annotated, json or yaml.\n",
      "  --strict              check: reserved.\n",
      "  --deny-warnings       check: fail where there are warnings.\n",
      "  --dump-tokens         check: print the parse table of each file.\n",
      "  --json                infer: print the type in full.\n"]

/-- What is left behind if there is nothing to run. -/
def Stop.transcript : Stop → Transcript
  | help => ⟨0, usage, ""⟩
  | version => ⟨0, "rtype 0.1.0\n", ""⟩
  | misuse => ⟨2, "", usage⟩

/-- What a command line leaves behind. -/
def answer (tree : FileTree) (arguments : List String) : Transcript :=
  match read arguments with
  | .ok invocation => run tree invocation
  | .error stop => stop.transcript

end TypeDrift.Command
