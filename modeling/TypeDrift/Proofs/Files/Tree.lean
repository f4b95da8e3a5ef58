import TypeDrift.Files.Tree
import TypeDrift.Proofs.Files.Path

/-! # Files by their names

A file of a tree is known by the names that lead to it from the root, one for each directory on the
way.  A path that can be followed leads where its names lead (`at?_of_follow`), so two paths lead to
one file if they have the same names, however they are spelled.  The files below a directory are
those that some more names lead to, each at its path with these names (`mem_files_iff`), and each of
these paths can be followed (`follow_below`).

All this holds of trees whose entries have names of their own, each one that a path can spell, and
that is kept by putting files in (`isProper_place`).
-/
namespace TypeDrift

open TypeDrift.Path

namespace Node

/-- The node that some names lead to. -/
def at? : Node → List String → Option Node
  | node, [] => some node
  | node, name :: names => (node.entries.lookup name).bind fun below => below.at? names

/-- In each directory, the entries have names of their own, each one that a path can spell. -/
inductive WellNamed : Node → Prop
  | file (content : ByteArray) : WellNamed (file content)
  | directory {entries : List (String × Node)} (nodup : (entries.map Prod.fst).Nodup)
      (names : ∀ entry ∈ entries, IsName entry.1) (below : ∀ entry ∈ entries, WellNamed entry.2) :
      WellNamed (directory entries)

theorem at?_append (node : Node) (front names : List String) :
    node.at? (front ++ names) = (node.at? front).bind fun below => below.at? names := by
  induction front generalizing node with
  | nil => rfl
  | cons name front ih =>
    show (node.entries.lookup name).bind (fun below => below.at? (front ++ names)) = _
    simp only [ih, at?, Option.bind_assoc]

variable {node below : Node} {name : String} {names : List String}

theorem mem_of_lookup (h : node.entries.lookup name = some below) :
    (name, below) ∈ node.entries := by
  obtain ⟨front, rest, hentries, -⟩ := List.lookup_eq_some_iff.mp h
  rw [hentries]
  exact List.mem_append_right _ List.mem_cons_self

namespace WellNamed

theorem entries_nodup (h : node.WellNamed) : (node.entries.map Prod.fst).Nodup := by
  cases h with
  | file => exact .nil
  | directory nodup _ _ => exact nodup

theorem entry (h : node.WellNamed) (hmem : (name, below) ∈ node.entries) :
    IsName name ∧ below.WellNamed := by
  cases h with
  | file => cases hmem
  | directory _ names wellNamed => exact ⟨names _ hmem, wellNamed _ hmem⟩

/-- Each entry is found by its name. -/
theorem lookup (h : node.WellNamed) (hmem : (name, below) ∈ node.entries) :
    node.entries.lookup name = some below := by
  have hnodup := h.entries_nodup
  generalize node.entries = entries at hmem hnodup
  induction entries with
  | nil => cases hmem
  | cons first entries ih =>
    obtain ⟨hfirst, hrest⟩ := List.nodup_cons.mp hnodup
    rcases List.mem_cons.mp hmem with rfl | hmem
    · exact List.lookup_cons_self
    · have hne : name ≠ first.1 := by
        rintro rfl
        exact hfirst (List.mem_map.mpr ⟨(first.1, below), hmem, rfl⟩)
      rw [List.lookup_cons, beq_eq_false_iff_ne.mpr hne]
      exact ih hmem hrest

theorem at? (h : node.WellNamed) (hat : node.at? names = some below) :
    below.WellNamed ∧ ∀ name ∈ names, IsName name := by
  induction names generalizing node with
  | nil =>
    cases hat
    exact ⟨h, List.forall_mem_nil _⟩
  | cons name names ih =>
    obtain ⟨next, hnext, hat⟩ := Option.bind_eq_some_iff.mp hat
    obtain ⟨hname, hwell⟩ := h.entry (mem_of_lookup hnext)
    obtain ⟨hbelow, hnames⟩ := ih hwell hat
    exact ⟨hbelow, List.forall_mem_cons.mpr ⟨hname, hnames⟩⟩

end WellNamed

/-! ## The files below a node -/

theorem mem_entryFiles_iff {path file : Path} {entries : List (String × Node)} :
    file ∈ entryFiles path entries ↔
      ∃ entry ∈ entries, file ∈ entry.2.files (path.join entry.1) := by
  induction entries with
  | nil => simp [entryFiles]
  | cons entry entries ih => simp [entryFiles, ih]

/-- **The files below a node** are those that names lead to, each at the path with these names. -/
theorem mem_files_iff (h : node.WellNamed) {path file : Path} :
    file ∈ node.files path ↔
      ∃ names content, node.at? names = some (.file content) ∧
        file = names.foldl Path.join path := by
  induction h generalizing path with
  | file content =>
    constructor
    · intro hmem
      exact ⟨[], content, rfl, List.mem_singleton.mp hmem⟩
    · rintro ⟨names, found, hat, rfl⟩
      cases names with
      | nil => exact List.mem_singleton_self _
      | cons name names => cases hat
  | @directory entries nodup names below ih =>
    have hwell : (directory entries).WellNamed := .directory nodup names below
    rw [files, mem_entryFiles_iff]
    constructor
    · rintro ⟨entry, hentry, hmem⟩
      obtain ⟨rest, content, hat, rfl⟩ := (ih entry hentry).mp hmem
      refine ⟨entry.1 :: rest, content, ?_, rfl⟩
      rw [Node.at?, hwell.lookup hentry]
      exact hat
    · rintro ⟨rest, content, hat, rfl⟩
      cases rest with
      | nil => cases hat
      | cons name rest =>
        obtain ⟨next, hnext, hat⟩ := Option.bind_eq_some_iff.mp hat
        have hentry := mem_of_lookup hnext
        exact ⟨(name, next), hentry, (ih _ hentry).mpr ⟨rest, content, hat, rfl⟩⟩

/-! ## Putting files in -/

theorem map_putEntry (name : String) (node : Node) (entries : List (String × Node)) :
    (putEntry name node entries).map Prod.fst =
      if name ∈ entries.map Prod.fst then entries.map Prod.fst
      else entries.map Prod.fst ++ [name] := by
  induction entries with
  | nil => rfl
  | cons entry entries ih =>
    rw [putEntry]
    by_cases heq : entry.1 = name
    · simp [heq]
    · simp only [if_neg heq, List.map_cons, ih, List.mem_cons, Ne.symm heq, false_or]
      split <;> rfl

theorem mem_putEntry {entry : String × Node} {entries : List (String × Node)}
    (h : entry ∈ putEntry name node entries) : entry = (name, node) ∨ entry ∈ entries := by
  induction entries with
  | nil => exact .inl (List.mem_singleton.mp h)
  | cons first entries ih =>
    rw [putEntry] at h
    split at h
    · exact (List.mem_cons.mp h).imp_right (List.mem_cons_of_mem _)
    · rcases List.mem_cons.mp h with rfl | h
      · exact .inr List.mem_cons_self
      · exact (ih h).imp_right (List.mem_cons_of_mem _)

theorem WellNamed.place (h : node.WellNamed) (content : Option ByteArray)
    (hnames : ∀ name ∈ names, IsName name) : (node.place content names).WellNamed := by
  induction names generalizing node with
  | nil =>
    cases content with
    | some content => exact .file content
    | none =>
      exact .directory h.entries_nodup (fun entry hmem => (h.entry hmem).1)
        fun entry hmem => (h.entry hmem).2
  | cons name names ih =>
    obtain ⟨hname, hnames⟩ := List.forall_mem_cons.mp hnames
    have hold : ((node.entries.lookup name).getD empty).WellNamed := by
      cases hfound : node.entries.lookup name with
      | none => exact .directory .nil nofun nofun
      | some below => exact (h.entry (mem_of_lookup hfound)).2
    have hmem : ∀ entry ∈ putEntry name
        (((node.entries.lookup name).getD empty).place content names) node.entries,
        IsName entry.1 ∧ entry.2.WellNamed := by
      intro entry hentry
      rcases mem_putEntry hentry with rfl | hentry
      · exact ⟨hname, ih hold hnames⟩
      · exact h.entry hentry
    refine .directory ?_ (fun entry hentry => (hmem entry hentry).1)
      fun entry hentry => (hmem entry hentry).2
    rw [map_putEntry]
    split
    · exact h.entries_nodup
    · next hnew =>
      refine List.nodup_append.mpr ⟨h.entries_nodup, List.pairwise_singleton _ _, ?_⟩
      rintro old hold _ hname rfl
      exact hnew (List.mem_singleton.mp hname ▸ hold)

end Node

/-! ## Following paths -/

/-- Names lead from a node to a place, through the directories that are above it. -/
inductive Node.Leads (root : Node) : List String → Location → Prop
  | root : Leads root [] ⟨root, []⟩
  | entry {names : List String} {place : Location} {name : String} {node : Node}
      (h : Leads root names place) (hentry : place.node.entries.lookup name = some node) :
      Leads root (names ++ [name]) ⟨node, place.node :: place.above⟩

namespace Node

variable {root : Node} {names : List String} {place place' : Location}

theorem Leads.at? (h : Leads root names place) : root.at? names = some place.node := by
  induction h with
  | root => rfl
  | @entry names place name node _ hentry ih =>
    rw [at?_append, ih]
    show (place.node.entries.lookup name).bind some = some node
    rw [hentry]
    rfl

/-- Names with what one more segment means. -/
def descendSegment (names : List String) (segment : String) : List String :=
  ((Component.ofSegment? segment).map (descend names)).getD names

/-- One more segment leads where its component leads. -/
theorem Leads.enter (h : Leads root names place) {segment : String}
    (henter : place.enter segment = .ok place') :
    Leads root (descendSegment names segment) place' := by
  unfold Location.enter at henter
  split at henter
  · cases henter
  next entries hentries =>
  unfold descendSegment Component.ofSegment?
  split at henter
  · next hempty =>
    cases henter
    rw [if_pos hempty]
    exact h
  next hempty =>
  rw [if_neg hempty]
  split at henter
  · next hparent =>
    -- The names without the last one lead to the innermost directory above.
    rw [if_pos hparent]
    cases h with
    | root =>
      cases henter
      exact .root
    | @entry names place name node h hentry =>
      cases henter
      show Leads root (names ++ [name]).dropLast _
      rw [List.dropLast_concat]
      exact h
  · next hparent =>
    rw [if_neg hparent]
    split at henter
    · next node hnode =>
      cases henter
      refine .entry h ?_
      rw [hentries]
      exact hnode
    · cases henter

theorem Leads.foldlM {segments : List String} (h : Leads root names place)
    (hfold : segments.foldlM Location.enter place = .ok place') :
    Leads root ((segments.filterMap Component.ofSegment?).foldl descend names) place' := by
  induction segments generalizing names place with
  | nil =>
    cases hfold
    exact h
  | cons segment segments ih =>
    rw [List.foldlM_cons] at hfold
    cases henter : place.enter segment with
    | error error =>
      rw [henter] at hfold
      cases hfold
    | ok next =>
      rw [henter] at hfold
      have hrest := ih (h.enter henter) hfold
      unfold descendSegment at hrest
      cases hof : Component.ofSegment? segment with
      | none =>
        rw [hof] at hrest
        rwa [List.filterMap_cons_none hof]
      | some component =>
        rw [hof] at hrest
        rwa [List.filterMap_cons_some hof]

end Node

namespace FileTree

variable {tree : FileTree} {path : Path} {place : Location}

/-- The names that lead to a path from the root. -/
def names (tree : FileTree) (path : Path) : List String :=
  namesFrom tree.workingDirectory path

/-- A tree as a run sees it: its names are well-formed, and the working directory is given from the
root on. -/
structure IsProper (tree : FileTree) : Prop where
  wellNamed : tree.root.WellNamed
  canonical : tree.workingDirectory.IsCanonical

theorem text_ne_empty_of_follow (h : tree.follow path = .ok place) : path.text ≠ "" := by
  intro hempty
  rw [follow, hempty] at h
  cases h

/-- The segments that are followed before those of a path. -/
def segmentsBefore (tree : FileTree) (path : Path) : List String :=
  if path.isAbsolute then [] else tree.workingDirectory.segments

theorem follow_eq (tree : FileTree) (hpath : path.text ≠ "") :
    tree.follow path =
      (tree.segmentsBefore path ++ path.segments).foldlM Location.enter ⟨tree.root, []⟩ := by
  rw [follow, if_neg (by simpa using hpath)]
  rfl

theorem leads_of_follow (h : tree.follow path = .ok place) :
    tree.root.Leads (tree.names path) place := by
  rw [follow_eq tree (text_ne_empty_of_follow h)] at h
  have hleads := Node.Leads.root.foldlM h
  rw [List.filterMap_append, List.foldl_append] at hleads
  rw [names, namesFrom_eq]
  unfold segmentsBefore at hleads
  by_cases habsolute : path.isAbsolute = true
  · rw [if_pos habsolute] at hleads ⊢
    exact hleads
  · rw [if_neg habsolute] at hleads ⊢
    exact hleads

/-- **A path leads where its names lead.** -/
theorem at?_of_follow (h : tree.follow path = .ok place) :
    tree.root.at? (tree.names path) = some place.node :=
  (leads_of_follow h).at?

theorem foldlM_enter_singleton (place : Location) (segment : String) :
    [segment].foldlM Location.enter place = place.enter segment := by
  rw [List.foldlM_cons]
  exact bind_pure _

/-- An entry is one step from its directory. -/
theorem follow_join (h : tree.follow path = .ok place) {name : String} (hname : IsName name) :
    tree.follow (path.join name) = place.enter name := by
  have hpath := text_ne_empty_of_follow h
  obtain ⟨front, -, hjoin, hsegments⟩ := segments_join path hname
  rw [follow_eq tree hpath] at h
  rw [follow_eq tree (text_join_ne_empty path hname), hjoin, segmentsBefore,
    isAbsolute_join hpath, ← segmentsBefore, ← List.append_assoc, List.foldlM_append]
  have hfront : (tree.segmentsBefore path ++ front).foldlM Location.enter ⟨tree.root, []⟩ =
      .ok place := by
    rcases hsegments with hsegments | hsegments
    · rwa [hsegments] at h
    · -- An empty segment at the end leads nowhere else.
      rw [hsegments, ← List.append_assoc, List.foldlM_append] at h
      cases hlast : (tree.segmentsBefore path ++ front).foldlM Location.enter ⟨tree.root, []⟩ with
      | error error =>
        rw [hlast] at h
        cases h
      | ok last =>
        rw [hlast] at h
        have henter : last.enter "" = .ok place := (foldlM_enter_singleton last "").symm.trans h
        unfold Location.enter at henter
        split at henter
        · cases henter
        · exact henter
  rw [hfront]
  exact foldlM_enter_singleton place name

/-- A name leads to the entry with this name. -/
theorem enter_of_lookup {name : String} {node : Node} (hname : IsName name)
    (h : place.node.entries.lookup name = some node) :
    place.enter name = .ok ⟨node, place.node :: place.above⟩ := by
  have hof : Component.ofSegment? name = some (.name name) := hname.ofSegment?
  unfold Component.ofSegment? at hof
  unfold Location.enter
  split at hof
  · cases hof
  next hplain =>
  split at hof
  · cases hof
  next hparent =>
  split
  · next content hfile =>
    rw [hfile] at h
    cases h
  · next entries hentries =>
    rw [hentries] at h
    have hlookup : entries.lookup name = some node := h
    rw [if_neg hplain, if_neg hparent, hlookup]

/-- **What is below a path that can be followed** can be followed from there. -/
theorem follow_below {names : List String} {node : Node} (hwell : place.node.WellNamed)
    (h : tree.follow path = .ok place) (hat : place.node.at? names = some node) :
    ∃ place', tree.follow (names.foldl Path.join path) = .ok place' ∧ place'.node = node := by
  induction names generalizing path place with
  | nil =>
    cases hat
    exact ⟨place, h, rfl⟩
  | cons name names ih =>
    obtain ⟨next, hnext, hat⟩ := Option.bind_eq_some_iff.mp hat
    obtain ⟨hname, hwell⟩ := hwell.entry (Node.mem_of_lookup hnext)
    have hentry : tree.follow (path.join name) = .ok ⟨next, place.node :: place.above⟩ :=
      (follow_join h hname).trans (enter_of_lookup hname hnext)
    exact ih hwell hentry hat

/-- Trees stay well-formed when files are put in. -/
theorem isProper_place (h : tree.IsProper) (path : Path) (content : Option ByteArray) :
    (tree.place path content).IsProper where
  wellNamed := h.wellNamed.place content (isName_of_mem_namesFrom tree.workingDirectory path)
  canonical := h.canonical

theorem isProper_empty {workingDirectory : Path} (h : workingDirectory.IsCanonical) :
    (FileTree.empty workingDirectory).IsProper :=
  ⟨.directory .nil nofun nofun, h⟩

end FileTree
end TypeDrift
