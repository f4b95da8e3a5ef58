import TypeDrift.Proofs.Command.Arguments
import TypeDrift.Proofs.Command.Files

/-! # Parse tables before the reports

A check that is asked for parse tables prints them while it goes through the files, and the reports
come in the end.  A file that is no script has no table, and the run goes on.  A file that cannot be read
has none either, but there the run ends, and with it are gone the reports of all files, also of those that
have been checked by then (`unreadable_ends_run`).  Without the wish for tables the same file is
one error among the findings.  Either way the run fails, so that the exit status is the same; and where all
files can be read, the tables are all that comes on top (`answer_dumpTokens`).
-/
namespace TypeDrift.Command

/-- A file that can be read as text. -/
def isReadable (tree : FileTree) (path : Path) : Bool := (SourceFile.read tree path).toOption.isSome

/-- The parse table of the file at a path with its name above it, if there is a script in the file. -/
def table? (tree : FileTree) (path : Path) : Option String :=
  match SourceFile.read tree path with
  | .error _ => none
  | .ok source =>
    match Script.read source.contents with
    | .error _ => none
    | .ok script => some (tree.shown path ++ "\n" ++ script.table.render)

/-- The files that a request for a check leads to, in their order. -/
def requestedFiles (tree : FileTree) (request : CheckRequest) : List Path :=
  match Checker.ofTags request.customTypes request.strict, collect tree request.paths with
  | .ok _, .ok files => files
  | _, _ => []

/-- The files that a command line checks, in their order. -/
def checkedFiles (tree : FileTree) (arguments : List String) : List Path :=
  match read arguments with
  | .ok ⟨_, .check request⟩ => requestedFiles tree request
  | _ => []

namespace Transcript
variable (output errors : String) (failure : Option Failure)

@[simp]
theorem ending_output : (ending output errors failure).output = output := by cases failure <;> rfl

@[simp]
theorem ending_exit : (ending output errors failure).exit = if failure.isSome then 1 else 0 := by
  cases failure <;> rfl

end Transcript

section Progress
variable (checker : Checker) (tree : FileTree)

/-- The tables of files up to the first one that cannot be read. -/
def tablesBefore (files : List Path) : String :=
  String.join ((files.takeWhile (isReadable tree)).filterMap (table? tree))

theorem progress_plain (files : List Path) :
    (progress checker tree false files).tables = "" ∧
      (progress checker tree false files).failure = none := by
  induction files with
  | nil => exact ⟨rfl, rfl⟩
  | cons file files ih => exact ⟨congrArg ("" ++ ·) ih.1, ih.2⟩

/-- A table is had where the file can be read. -/
theorem dump_readable {path : Path} (h : isReadable tree path = true) :
    ∃ entries, dump tree path = .ok ((table? tree path).getD "", entries) := by
  unfold isReadable at h
  cases hread : SourceFile.read tree path with
  | error error =>
    rw [hread] at h
    cases h
  | ok source =>
    cases hscript : Script.read source.contents with
    | error fault => exact ⟨_, by simp only [dump, table?, hread, hscript]; rfl⟩
    | ok script => exact ⟨_, by simp only [dump, table?, hread, hscript]; rfl⟩

theorem dump_unreadable {path : Path} (h : isReadable tree path = false) :
    ∃ failure, dump tree path = .error failure := by
  unfold isReadable at h
  cases hread : SourceFile.read tree path with
  | error error => exact ⟨_, by simp only [dump, hread]; rfl⟩
  | ok source =>
    rw [hread] at h
    cases h

/-- Tables are printed up to the first file that cannot be read, and there the run fails. -/
theorem progress_tables (files : List Path) :
    (progress checker tree true files).tables = tablesBefore tree files ∧
      (progress checker tree true files).failure.isNone = files.all (isReadable tree) := by
  induction files with
  | nil => exact ⟨rfl, rfl⟩
  | cons file files ih =>
    obtain ⟨htables, hfailure⟩ := ih
    cases hfile : isReadable tree file with
    | true =>
      obtain ⟨entries, hdump⟩ := dump_readable tree hfile
      have hprogress : (progress checker tree true (file :: files)).tables =
            (table? tree file).getD "" ++ (progress checker tree true files).tables ∧
          (progress checker tree true (file :: files)).failure =
            (progress checker tree true files).failure := by
        rw [progress, if_pos rfl, hdump]
        exact ⟨rfl, rfl⟩
      rw [hprogress.1, hprogress.2, htables, hfailure]
      refine ⟨?_, by rw [List.all_cons, hfile, Bool.true_and]⟩
      rw [tablesBefore, tablesBefore, List.takeWhile_cons_of_pos hfile]
      cases htable : table? tree file with
      | none => rw [List.filterMap_cons_none htable, Option.getD_none, String.empty_append]
      | some table => rw [List.filterMap_cons_some htable, Option.getD_some, String.join_cons]
    | false =>
      obtain ⟨failure, hdump⟩ := dump_unreadable tree hfile
      have hprogress : progress checker tree true (file :: files) = ⟨"", [], some failure⟩ := by
        rw [progress, if_pos rfl, hdump]
      have hnone : (file :: files).takeWhile (isReadable tree) = [] :=
        List.takeWhile_cons_of_neg (by rw [hfile]; exact Bool.false_ne_true)
      rw [hprogress, tablesBefore, hnone, List.all_cons, hfile]
      exact ⟨rfl, rfl⟩

end Progress

/-! ## The whole run -/

section Run
variable (checker : Checker) (tree : FileTree) (level : Log.Level) (request : CheckRequest)
  (files : List Path)

/-- A file that cannot be read makes a check fail. -/
theorem fileFails_of_not_readable (deny : Bool) {file : Path} (h : isReadable tree file = false) :
    fileFails checker tree deny file = true := by
  unfold isReadable at h
  cases hread : SourceFile.read tree file with
  | error error =>
    rw [fileFails, Checker.checkFile, hread]
    rfl
  | ok source =>
    rw [hread] at h
    cases h

theorem checkFailure?_isSome {deny : Bool} {file : Path} (hmem : file ∈ files)
    (hfails : fileFails checker tree deny file = true) :
    (checkFailure? deny (checked checker tree files)).isSome = true := by
  have hfailed : ⟨file, checker.checkFile tree file⟩ ∈
      (checked checker tree files).filter (Checked.fails deny) :=
    List.mem_filter.mpr ⟨List.mem_map_of_mem hmem, hfails⟩
  have hpos := List.length_pos_of_mem hfailed
  rw [checkFailure?]
  split
  · omega
  · rfl

/-- A run that gets through the files. -/
theorem checkFiles_through
    (h : (progress checker tree request.dumpTokens files).failure = none) :
    let run := checkFiles checker tree level request files
    let failure := checkFailure? request.denyWarnings (checked checker tree files)
    run.output = (progress checker tree request.dumpTokens files).tables ++
        request.format.output tree (checked checker tree files) ∧
      run.exit = if failure.isSome then 1 else 0 := by
  simp only [checkFiles, h, Transcript.ending_output, Transcript.ending_exit]
  exact ⟨rfl, rfl⟩

/-- A run that ends at a file. -/
theorem checkFiles_ended {failure : Failure}
    (h : (progress checker tree request.dumpTokens files).failure = some failure) :
    let run := checkFiles checker tree level request files
    run.output = (progress checker tree request.dumpTokens files).tables ∧ run.exit = 1 := by
  simp only [checkFiles, h, Transcript.ending_output, Transcript.ending_exit]
  exact ⟨trivial, rfl⟩

/-- What parse tables change in a run over files. -/
theorem checkFiles_dumpTokens (hplain : request.dumpTokens = false) :
    let plain := checkFiles checker tree level request files
    let dumped := checkFiles checker tree level { request with dumpTokens := true } files
    dumped.exit = plain.exit ∧
      dumped.output = tablesBefore tree files ++
        if files.all (isReadable tree) then plain.output else "" := by
  intro plain dumped
  obtain ⟨htables, hfailure⟩ := progress_tables checker tree files
  obtain ⟨hnothing, hgoes⟩ := progress_plain checker tree files
  obtain ⟨hplainOutput, hplainExit⟩ :=
    checkFiles_through checker tree level request files (by rwa [hplain])
  rw [hplain, hnothing, String.empty_append] at hplainOutput
  cases hall : files.all (isReadable tree) with
  | true =>
    rw [hall, Option.isNone_iff_eq_none] at hfailure
    obtain ⟨houtput, hexit⟩ :=
      checkFiles_through checker tree level { request with dumpTokens := true } files
        hfailure
    refine ⟨hexit.trans hplainExit.symm, ?_⟩
    rw [if_pos rfl, houtput, hplainOutput, htables]
  | false =>
    rw [hall] at hfailure
    obtain ⟨failure, hfailure⟩ := Option.isSome_iff_exists.mp (Option.isNone_eq_false_iff.mp hfailure)
    obtain ⟨houtput, hexit⟩ :=
      checkFiles_ended checker tree level { request with dumpTokens := true } files
        hfailure
    obtain ⟨file, hmem, hfile⟩ := List.all_eq_false.mp hall
    have hfails := fileFails_of_not_readable checker tree request.denyWarnings
      (Bool.eq_false_iff.mpr hfile)
    refine ⟨?_, ?_⟩
    · rw [hexit, hplainExit, checkFailure?_isSome checker tree files hmem hfails]
      rfl
    · rw [houtput, htables]
      simp

end Run

/-- A run that checks files or has none to check. -/
theorem runCheck_dumpTokens (tree : FileTree) (level : Log.Level) {request : CheckRequest}
    (hplain : request.dumpTokens = false) :
    let plain := runCheck tree level request
    let dumped := runCheck tree level { request with dumpTokens := true }
    let files := requestedFiles tree request
    dumped.exit = plain.exit ∧
      dumped.output = tablesBefore tree files ++
        if files.all (isReadable tree) then plain.output else "" := by
  unfold runCheck requestedFiles
  dsimp only
  cases Checker.ofTags request.customTypes request.strict with
  | error error => exact ⟨rfl, rfl⟩
  | ok checker =>
    dsimp only
    cases collect tree request.paths with
    | error failure => exact ⟨rfl, rfl⟩
    | ok files =>
      cases files with
      | nil => exact ⟨rfl, rfl⟩
      | cons file files => exact checkFiles_dumpTokens checker tree level request _ hplain

/-- A command line that asks for a check, and the same with the wish for parse tables put in. -/
theorem answer_insert (tree : FileTree) {before front rest : List String}
    (hbefore : ∀ argument ∈ before, Spelling.of argument ≠ .operand)
    (hopen : Verb.check.Open front) (hundumped : Undumped (front ++ rest)) :
    let plain := before ++ "check" :: (front ++ rest)
    let dumped := before ++ "check" :: (front ++ "--dump-tokens" :: rest)
    (answer tree dumped).exit = (answer tree plain).exit ∧
      (answer tree dumped).output = tablesBefore tree (checkedFiles tree plain) ++
        if (checkedFiles tree plain).all (isReadable tree) then (answer tree plain).output
        else "" := by
  intro plain dumped
  have hread : read dumped = (read plain).map .withTables := read_dumpTokens hbefore hopen hundumped
  cases hplain : read plain with
  | error stop =>
    rw [hplain] at hread
    have hdumped : answer tree dumped = answer tree plain := by
      rw [answer, answer, hread, hplain]
      rfl
    have hfiles : checkedFiles tree plain = [] := by rw [checkedFiles, hplain]
    rw [hdumped, hfiles]
    exact ⟨rfl, (String.empty_append ..).symm⟩
  | ok invocation =>
    obtain ⟨level, request, rfl, htables⟩ := exists_check_of_read hbefore hundumped hplain
    have hanswer : answer tree plain = runCheck tree level request := by
      rw [answer, hplain]
      rfl
    have hdumped : answer tree dumped = runCheck tree level { request with dumpTokens := true } := by
      rw [answer, hread, hplain]
      rfl
    have hfiles : checkedFiles tree plain = requestedFiles tree request := by
      rw [checkedFiles, hplain]
    rw [hanswer, hdumped, hfiles]
    exact runCheck_dumpTokens tree level htables

end TypeDrift.Command
