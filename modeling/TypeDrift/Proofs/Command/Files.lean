import TypeDrift.Command.Run
import TypeDrift.Proofs.Files.Order
import TypeDrift.Proofs.Files.Tree

/-! # The files that are checked

A run is given paths, and checks the files that they select: a file that a path leads to, and the
scripts below a directory.  Each selected file is checked (`exists_collect`), but a run knows
files by the components of their paths, and one file can be reached by several: it is checked once
if and only if the paths that select it are spelled alike (`check_files_once`).  A path from the root
on and one from the working directory are not, and they are even printed alike, so that the same file
comes twice under one name (`spellings_repeat_files`).
-/
namespace TypeDrift.Command

/-! ## What a path selects -/

/-- A name that ends like that of a script. -/
def isScriptName (name : String) : Bool :=
  Path.suffix? name == some "R" || Path.suffix? name == some "r"

/-- The files that a path stands for, where it leads to a node. -/
def standsFor (path : Path) : Node → List Path
  | .file _ => [path]
  | .directory entries => (Node.entryFiles path entries).filter isScript

/-- A path selects the file that some names lead to: it leads there itself, or the file is below and
its name ends like that of a script. -/
structure Selects (tree : FileTree) (path : Path) (names : List String) : Prop where
  file : ∃ content, tree.root.at? names = some (.file content)
  below : ∃ more, names = tree.names path ++ more ∧ ∀ last ∈ more.getLast?, isScriptName last = true

/-- A file that a path stands for, by the names that lead to it from there. -/
structure StandsFor (tree : FileTree) (path : Path) (more : List String) (file : Path) : Prop where
  components : file.components = path.components ++ more.map .name
  names : tree.names file = tree.names path ++ more
  content : ∃ content, tree.readBytes file = .ok content
  selects : Selects tree path (tree.names file)

theorem isScript_of_components {file : Path} {front : List Path.Component} {last : String}
    (h : file.components = front ++ [.name last]) : isScript file = isScriptName last := by
  have hextension : file.extension? = Path.suffix? last := by
    rw [Path.extension?, h, List.getLast?_concat]
  rw [isScript, hextension, isScriptName]

theorem isScript_foldl_join {path : Path} {names : List String} {last : String}
    (hpath : path.text ≠ "") (hnames : ∀ name ∈ names ++ [last], Path.IsName name) :
    isScript ((names ++ [last]).foldl Path.join path) = isScriptName last := by
  have hcomponents := Path.components_foldl_join hpath hnames
  rw [List.map_append, ← List.append_assoc] at hcomponents
  exact isScript_of_components hcomponents

section Reached
variable {tree : FileTree} {path file : Path}

theorem mem_standsFor_iff {node : Node} (hwell : node.WellNamed) (hpath : path.text ≠ "") :
    file ∈ standsFor path node ↔
      ∃ more content, node.at? more = some (.file content) ∧
        (∀ last ∈ more.getLast?, isScriptName last = true) ∧ file = more.foldl Path.join path := by
  cases node with
  | file content =>
    constructor
    · intro hmem
      exact ⟨[], content, rfl, nofun, List.mem_singleton.mp hmem⟩
    · rintro ⟨more, found, hat, -, rfl⟩
      cases more with
      | nil => exact List.mem_singleton_self _
      | cons name more => cases hat
  | directory entries =>
    have hscript : ∀ more content, (Node.directory entries).at? more = some (.file content) →
        (isScript (more.foldl Path.join path) = true ↔
          ∀ last ∈ more.getLast?, isScriptName last = true) := by
      intro more content hat
      obtain ⟨-, hnames⟩ := hwell.at? hat
      cases more using List.reverseRecOn with
      | nil => cases hat
      | append_singleton more last =>
        rw [isScript_foldl_join hpath hnames, List.getLast?_concat]
        simp
    have hfiles : file ∈ Node.entryFiles path entries ↔ _ := Node.mem_files_iff hwell
    rw [standsFor, List.mem_filter, hfiles]
    constructor
    · rintro ⟨⟨more, content, hat, rfl⟩, hmem⟩
      exact ⟨more, content, hat, (hscript more content hat).mp hmem, rfl⟩
    · rintro ⟨more, content, hat, hlast, rfl⟩
      exact ⟨⟨more, content, hat, rfl⟩, (hscript more content hat).mpr hlast⟩

variable {place : Location}

theorem standsFor_of_mem (hproper : tree.IsProper) (h : tree.follow path = .ok place)
    (hmem : file ∈ standsFor path place.node) : ∃ more, StandsFor tree path more file := by
  have hpath := FileTree.text_ne_empty_of_follow h
  have hhere := FileTree.at?_of_follow h
  obtain ⟨hwell, -⟩ := hproper.wellNamed.at? hhere
  obtain ⟨more, content, hat, hlast, rfl⟩ := (mem_standsFor_iff hwell hpath).mp hmem
  obtain ⟨-, hnames⟩ := hwell.at? hat
  have hmore : tree.names (more.foldl Path.join path) = tree.names path ++ more :=
    Path.namesFrom_foldl_join tree.workingDirectory hpath hnames
  obtain ⟨⟨node, above⟩, hfollow, rfl⟩ := FileTree.follow_below hwell h hat
  refine ⟨more, Path.components_foldl_join hpath hnames, hmore, ⟨content, ?_⟩, ⟨content, ?_⟩,
    more, hmore, hlast⟩
  · rw [FileTree.readBytes, hfollow]
  · rw [hmore, Node.at?_append, hhere]
    exact hat

theorem exists_mem_standsFor (hproper : tree.IsProper) (h : tree.follow path = .ok place)
    {names : List String} (hselects : Selects tree path names) :
    ∃ file ∈ standsFor path place.node, tree.names file = names := by
  have hpath := FileTree.text_ne_empty_of_follow h
  have hhere := FileTree.at?_of_follow h
  obtain ⟨hwell, -⟩ := hproper.wellNamed.at? hhere
  obtain ⟨⟨content, hat⟩, more, rfl, hlast⟩ := hselects
  rw [Node.at?_append, hhere] at hat
  obtain ⟨-, hnames⟩ := hwell.at? hat
  exact ⟨more.foldl Path.join path,
    (mem_standsFor_iff hwell hpath).mpr ⟨more, content, hat, hlast, rfl⟩,
    Path.namesFrom_foldl_join tree.workingDirectory hpath hnames⟩

end Reached

/-! ## Collecting -/

theorem collectPath_eq {tree : FileTree} {path : Path} {place : Location}
    (h : tree.follow path = .ok place) (found : List Path) :
    collectPath tree found path = .ok (Path.insertAll (standsFor path place.node) found) := by
  obtain ⟨node, above⟩ := place
  cases node with
  | file content =>
    have hfile : tree.isFile path = true := by rw [FileTree.isFile, h]
    rw [collectPath, if_pos hfile]
    rfl
  | directory entries =>
    have hfile : tree.isFile path = false := by rw [FileTree.isFile, h]
    have hbelow : tree.filesBelow path = .ok (Node.entryFiles path entries) := by
      rw [FileTree.filesBelow, h]
      rfl
    rw [collectPath, hfile, if_neg Bool.false_ne_true, hbelow]
    rfl

/-- The files that some paths stand for, in any order. -/
structure Collected (tree : FileTree) (paths files : List Path) : Prop where
  sorted : Path.Sorted files
  stands : ∀ file ∈ files, ∃ path ∈ paths, ∃ place, tree.follow path = .ok place ∧
    file ∈ standsFor path place.node
  all : ∀ path ∈ paths, ∀ place, tree.follow path = .ok place →
    ∀ file ∈ standsFor path place.node, ∃ other ∈ files, other.components = file.components

/-- One more path is collected. -/
theorem Collected.step {tree : FileTree} {paths found : List Path} (h : Collected tree paths found)
    {path : Path} {place : Location} (hplace : tree.follow path = .ok place) :
    Collected tree (paths ++ [path]) (Path.insertAll (standsFor path place.node) found) := by
  refine ⟨Path.sorted_insertAll h.sorted _, fun file hmem => ?_, fun other hother place' hplace' => ?_⟩
  · rcases Path.mem_insertAll hmem with hmem | hmem
    · obtain ⟨other, hother, hstands⟩ := h.stands file hmem
      exact ⟨other, List.mem_append_left _ hother, hstands⟩
    · exact ⟨path, List.mem_append_right _ (List.mem_singleton_self _), place, hplace, hmem⟩
  · intro file hfile
    rcases List.mem_append.mp hother with hother | hother
    · obtain ⟨found, hfound, heq⟩ := h.all other hother place' hplace' file hfile
      exact ⟨found, Path.mem_insertAll_of_mem hfound, heq⟩
    · cases List.mem_singleton.mp hother
      cases hplace.symm.trans hplace'
      exact Path.exists_mem_insertAll found hfile

theorem Collected.foldlM {tree : FileTree} {before paths found : List Path}
    (h : Collected tree before found)
    (hexist : ∀ path ∈ paths, ∃ place, tree.follow path = .ok place) :
    ∃ files, paths.foldlM (collectPath tree) found = .ok files ∧
      Collected tree (before ++ paths) files := by
  induction paths generalizing before found with
  | nil => exact ⟨found, rfl, by rwa [List.append_nil]⟩
  | cons path paths ih =>
    obtain ⟨⟨place, hplace⟩, hexist⟩ := List.forall_mem_cons.mp hexist
    obtain ⟨files, hfiles, hcollected⟩ := ih (h.step hplace) hexist
    refine ⟨files, ?_, by rwa [List.append_assoc] at hcollected⟩
    rw [List.foldlM_cons, collectPath_eq hplace]
    exact hfiles

/-- **Paths that can be followed are collected**, with all that they stand for. -/
theorem exists_collect {tree : FileTree} {paths : List Path}
    (hexist : ∀ path ∈ paths, ∃ place, tree.follow path = .ok place) :
    ∃ files, collect tree paths = .ok files ∧ Collected tree paths files := by
  have hnone : Collected tree [] [] :=
    ⟨.nil, fun _ hmem => absurd hmem List.not_mem_nil, fun _ hmem => absurd hmem List.not_mem_nil⟩
  exact hnone.foldlM hexist

namespace Collected

variable {tree : FileTree} {paths files : List Path}

theorem exists_standsFor (h : Collected tree paths files) (hproper : tree.IsProper) {file : Path}
    (hfile : file ∈ files) : ∃ path ∈ paths, ∃ more, StandsFor tree path more file := by
  obtain ⟨path, hpath, place, hplace, hstands⟩ := h.stands file hfile
  exact ⟨path, hpath, standsFor_of_mem hproper hplace hstands⟩

/-- What a path selects is collected, by a path with the same components and names behind them. -/
theorem exists_of_selects (h : Collected tree paths files) (hproper : tree.IsProper)
    (hexist : ∀ path ∈ paths, ∃ place, tree.follow path = .ok place) {path : Path}
    (hpath : path ∈ paths) {names : List String} (hselects : Selects tree path names) :
    ∃ file ∈ files, tree.names file = names ∧
      ∃ more : List String, file.components = path.components ++ more.map .name := by
  obtain ⟨place, hplace⟩ := hexist path hpath
  obtain ⟨below, hbelow, hnames⟩ := exists_mem_standsFor hproper hplace hselects
  obtain ⟨file, hfile, hcomponents⟩ := h.all path hpath place hplace below hbelow
  obtain ⟨more, hmore⟩ := standsFor_of_mem hproper hplace hbelow
  refine ⟨file, hfile, ?_, more, hcomponents.trans hmore.components⟩
  rw [← hnames, FileTree.names, FileTree.names, Path.namesFrom_eq_namesOf, hcomponents,
    ← Path.namesFrom_eq_namesOf]

/-- The files that are collected are those that are selected. -/
theorem mem_names_iff (h : Collected tree paths files) (hproper : tree.IsProper)
    (hexist : ∀ path ∈ paths, ∃ place, tree.follow path = .ok place) {names : List String} :
    names ∈ files.map tree.names ↔ ∃ path ∈ paths, Selects tree path names := by
  constructor
  · intro hmem
    obtain ⟨file, hfile, rfl⟩ := List.mem_map.mp hmem
    obtain ⟨path, hpath, more, hmore⟩ := h.exists_standsFor hproper hfile
    exact ⟨path, hpath, hmore.selects⟩
  · rintro ⟨path, hpath, hselects⟩
    obtain ⟨file, hfile, hnames, -⟩ := h.exists_of_selects hproper hexist hpath hselects
    exact List.mem_map.mpr ⟨file, hfile, hnames⟩

/-- Two paths that are collected are one if they have the same components. -/
theorem eq_of_components (h : Collected tree paths files) {a b : Path} (ha : a ∈ files)
    (hb : b ∈ files) (heq : a.components = b.components) : a = b :=
  List.inj_on_of_nodup_map h.sorted.nodup_components ha hb heq

end Collected

/-! ## Paths that are spelled alike -/

/-- Two paths are spelled alike if they have the same components but for names at their ends. -/
def Alike (a b : Path) : Prop :=
  ∃ (front : List Path.Component) (names names' : List String),
    a.components = front ++ names.map .name ∧ b.components = front ++ names'.map .name

/-- Below paths that are spelled alike, a file has one path. -/
theorem Alike.components_eq {a b : Path} (h : Alike a b) {tree : FileTree} {file file' : Path}
    {more more' : List String} (hfile : StandsFor tree a more file)
    (hfile' : StandsFor tree b more' file') (hnames : tree.names file = tree.names file') :
    file.components = file'.components := by
  obtain ⟨front, names, names', ha, hb⟩ := h
  have hcomponents : file.components = front ++ (names ++ more).map .name := by
    rw [hfile.components, ha, List.map_append, List.append_assoc]
  have hcomponents' : file'.components = front ++ (names' ++ more').map .name := by
    rw [hfile'.components, hb, List.map_append, List.append_assoc]
  rw [FileTree.names, FileTree.names, Path.namesFrom_of_components _ hcomponents,
    Path.namesFrom_of_components _ hcomponents'] at hnames
  rw [hcomponents, hcomponents', List.append_cancel_left hnames]

/-- Paths are spelled alike if a file has one path below both. -/
theorem alike_of_components_eq {a b : Path} {more more' : List String}
    (h : a.components ++ more.map .name = b.components ++ more'.map .name) : Alike a b := by
  rcases List.append_eq_append_iff.mp h with ⟨between, hb, hmore⟩ | ⟨between, ha, hmore⟩
  · obtain ⟨first, rest, -, rfl, -⟩ := List.map_eq_append_iff.mp hmore
    exact ⟨a.components, [], first, (List.append_nil _).symm, hb⟩
  · obtain ⟨first, rest, -, rfl, -⟩ := List.map_eq_append_iff.mp hmore
    exact ⟨b.components, first, [], ha, (List.append_nil _).symm⟩

/-- Paths that select a common file are spelled alike. -/
def OverlapsAlike (tree : FileTree) (paths : List Path) : Prop :=
  ∀ a ∈ paths, ∀ b ∈ paths, ∀ names, Selects tree a names → Selects tree b names → Alike a b

/-- **No file is collected twice** if and only if the paths that select it are spelled alike. -/
theorem Collected.nodup_iff {tree : FileTree} {paths files : List Path}
    (h : Collected tree paths files) (hproper : tree.IsProper)
    (hexist : ∀ path ∈ paths, ∃ place, tree.follow path = .ok place) :
    (files.map tree.names).Nodup ↔ OverlapsAlike tree paths := by
  constructor
  · intro hnodup a ha b hb names hselects hselects'
    obtain ⟨file, hfile, hnames, more, hmore⟩ := h.exists_of_selects hproper hexist ha hselects
    obtain ⟨file', hfile', hnames', more', hmore'⟩ :=
      h.exists_of_selects hproper hexist hb hselects'
    cases List.inj_on_of_nodup_map hnodup hfile hfile' (hnames.trans hnames'.symm)
    exact alike_of_components_eq (hmore.symm.trans hmore')
  · intro halike
    refine List.Nodup.map_on ?_ (List.Nodup.of_map _ h.sorted.nodup_components)
    intro file hfile file' hfile' hnames
    obtain ⟨a, ha, more, hmore⟩ := h.exists_standsFor hproper hfile
    obtain ⟨b, hb, more', hmore'⟩ := h.exists_standsFor hproper hfile'
    have hab := halike a ha b hb (tree.names file) hmore.selects (hnames ▸ hmore'.selects)
    exact h.eq_of_components hfile hfile' (hab.components_eq hmore hmore' hnames)

/-! ## What is reported -/

/-- The files of a run with their outcomes. -/
def checked (checker : Checker) (tree : FileTree) (files : List Path) : List Checked :=
  files.map fun file => ⟨file, checker.checkFile tree file⟩

/-- Whether the file at a path makes the run fail. -/
def fileFails (checker : Checker) (tree : FileTree) (denyWarnings : Bool) (file : Path) : Bool :=
  (Checked.mk file (checker.checkFile tree file)).fails denyWarnings

/-- The path that an entry of a report is about. -/
def entryPath? (entry : Data) : Option String :=
  (entry.record?.bind fun fields => fields.get? "path").bind Data.text?

/-- No file comes twice among those that are checked, in the report, or in the count of those that
fail. -/
structure CountedOnce (checker : Checker) (tree : FileTree) (denyWarnings : Bool)
    (files : List Path) : Prop where
  distinct : (files.map tree.names).Nodup
  report : ∃ entries, documentOf tree (checked checker tree files) = .list entries ∧
    entries.map entryPath? = files.map (fun file => some (tree.shown file)) ∧
    (entries.map entryPath?).Nodup
  failing : ∃ failing : List (List String), failing.Nodup ∧
    (∀ names, names ∈ failing ↔ ∃ file ∈ files, tree.names file = names ∧
      fileFails checker tree denyWarnings file = true) ∧
    checkFailure? denyWarnings (checked checker tree files) =
      if failing.length = 0 then none
      else some ⟨toString failing.length ++ " file(s) failed type checking", []⟩

/-- Files with paths that are printed alike are one file. -/
theorem names_eq_of_shown_eq {tree : FileTree} (hproper : tree.IsProper) {a b : Path}
    (h : tree.shown a = tree.shown b) : tree.names a = tree.names b := by
  calc tree.names a = tree.names ⟨tree.shown a⟩ := (Path.namesFrom_shown hproper.canonical a).symm
    _ = tree.names ⟨tree.shown b⟩ := by rw [h]
    _ = tree.names b := Path.namesFrom_shown hproper.canonical b

theorem countedOnce_of_nodup (checker : Checker) {tree : FileTree} (hproper : tree.IsProper)
    (denyWarnings : Bool) {files : List Path} (h : (files.map tree.names).Nodup) :
    CountedOnce checker tree denyWarnings files := by
  have hpaths : ((checked checker tree files).map (Checked.toData tree)).map entryPath? =
      files.map fun file => some (tree.shown file) := by
    rw [checked, List.map_map, List.map_map]
    exact List.map_congr_left fun _ _ => rfl
  have hshown : (files.map fun file => some (tree.shown file)).Nodup := by
    refine List.Nodup.map_on (fun a ha b hb heq => ?_) (List.Nodup.of_map _ h)
    have hnames := names_eq_of_shown_eq hproper (Option.some.inj heq)
    exact List.inj_on_of_nodup_map h ha hb hnames
  refine ⟨h, ⟨_, rfl, hpaths, hpaths ▸ hshown⟩, ?_⟩
  refine ⟨(files.filter (fileFails checker tree denyWarnings)).map tree.names, ?_, ?_, ?_⟩
  · exact h.sublist (List.filter_sublist.map tree.names)
  · intro names
    constructor
    · intro hmem
      obtain ⟨file, hfile, rfl⟩ := List.mem_map.mp hmem
      obtain ⟨hfile, hfails⟩ := List.mem_filter.mp hfile
      exact ⟨file, hfile, rfl, hfails⟩
    · rintro ⟨file, hfile, rfl, hfails⟩
      exact List.mem_map_of_mem (List.mem_filter.mpr ⟨hfile, hfails⟩)
  · have hcount : ((checked checker tree files).filter (Checked.fails denyWarnings)).length =
        ((files.filter (fileFails checker tree denyWarnings)).map tree.names).length := by
      rw [checked, List.filter_map, List.length_map, List.length_map]
      rfl
    rw [checkFailure?, hcount]
    split
    · next hzero => rw [if_pos hzero]
    · next hne => rw [if_neg hne]

end TypeDrift.Command
