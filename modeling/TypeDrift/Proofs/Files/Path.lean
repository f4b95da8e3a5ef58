import Mathlib.Data.List.DropRight
import TypeDrift.Files.Path

/-! # Spellings of paths

A path is spelled by segments with slashes between them, and most questions about its components
are questions about these.  This module answers three of them.  The components of an entry of a
directory are those of the directory and the name (`components_join`).  Components that are put
together are found again (`spelled_ofComponents`).  And a path as it is printed leads where the path
itself leads (`namesFrom_shown`): what the working directory has of its own is taken back name by
name, and what the path has of its own is gone down.
-/
namespace TypeDrift.Path

/-! ## Segments -/

theorem split_ne_nil (cs : List Char) : split cs ≠ [] := by
  fun_cases split cs <;> exact List.cons_ne_nil _ _

theorem split_eq_splitOn (cs : List Char) : split cs = cs.splitOn '/' := by
  induction cs with
  | nil => rfl
  | cons c rest ih =>
    have hcons : (c :: rest).splitOn '/' =
        if (c == '/') = true then [] :: rest.splitOn '/'
        else (rest.splitOn '/').modifyHead (List.cons c) :=
      List.splitOnP_cons_eq_if_modifyHead c rest
    rw [split, hcons, ← ih]
    split
    · rfl
    · cases hrest : split rest with
      | nil => exact absurd hrest (split_ne_nil rest)
      | cons segment segments => rfl

theorem split_append_slash (front rest : List Char) :
    split (front ++ '/' :: rest) = split front ++ split rest := by
  simp only [split_eq_splitOn, List.splitOn]
  exact List.splitOnP_append_cons front rest rfl

theorem split_of_not_mem {cs : List Char} (h : '/' ∉ cs) : split cs = [cs] := by
  have hsplit := List.splitOn_intercalate '/' (List.forall_mem_singleton.mpr h)
    (List.cons_ne_nil cs [])
  rw [split_eq_splitOn]
  simpa using hsplit

theorem slash_not_mem_of_mem_split {cs segment : List Char} (h : segment ∈ split cs) :
    '/' ∉ segment := by
  fun_induction split cs generalizing segment with
  | case1 =>
    cases List.mem_singleton.mp h
    exact List.not_mem_nil
  | case2 c rest hc ih =>
    rcases List.mem_cons.mp h with rfl | h
    · exact List.not_mem_nil
    · exact ih h
  | case3 c rest hc hrest ih => exact absurd hrest (split_ne_nil rest)
  | case4 c rest hc first others hrest ih =>
    have hc : '/' ≠ c := by
      rintro rfl
      exact hc rfl
    rw [hrest] at ih
    rcases List.mem_cons.mp h with rfl | h
    · rw [List.mem_cons, not_or]
      exact ⟨hc, ih List.mem_cons_self⟩
    · exact ih (List.mem_cons_of_mem _ h)

/-! ## Components -/

/-- A component that is spelled by one segment. -/
structure Component.IsSpelled (component : Component) : Prop where
  ofSegment? : Component.ofSegment? component.text = some component
  slash_not_mem : '/' ∉ component.text.toList

/-- A name that an entry of a directory can have. -/
def IsName (name : String) : Prop := (Component.name name).IsSpelled

theorem Component.text_of_ofSegment? {segment : String} {component : Component}
    (h : ofSegment? segment = some component) : component.text = segment := by
  unfold ofSegment? at h
  split at h
  · cases h
  · split at h
    · next hparent =>
      cases h
      exact hparent.symm
    · cases h
      rfl

/-- The component that the beginning of a path is, if it is one. -/
def lead (path : Path) : List Component :=
  if path.isAbsolute then [.root]
  else if path.segments.head? = some "." then [.current] else []

/-- The components behind the beginning of a path. -/
def spelled (path : Path) : List Component := path.segments.filterMap Component.ofSegment?

theorem components_eq (path : Path) : path.components = path.lead ++ path.spelled := by
  unfold components lead spelled
  split
  · rfl
  · split <;> rfl

theorem isSpelled_of_mem_spelled {path : Path} {component : Component}
    (h : component ∈ path.spelled) : component.IsSpelled := by
  obtain ⟨segment, hsegment, hof⟩ := List.mem_filterMap.mp h
  have htext := Component.text_of_ofSegment? hof
  refine ⟨htext ▸ hof, ?_⟩
  obtain ⟨chars, hchars, rfl⟩ := List.mem_map.mp hsegment
  rw [htext, String.toList_ofList]
  exact slash_not_mem_of_mem_split hchars

/-- Names with the components of one more path. -/
theorem foldl_descend_components (names : List String) (path : Path) :
    path.components.foldl descend names = path.spelled.foldl descend names := by
  rw [components_eq, List.foldl_append]
  congr 1
  unfold lead
  split
  · rfl
  · split <;> rfl

theorem isAbsolute_iff {path : Path} :
    path.isAbsolute = true ↔ path.components.head? = some .root := by
  rw [components_eq, lead]
  split
  · next h => exact iff_of_true h rfl
  · next h =>
    refine iff_of_false h fun hhead => ?_
    split at hhead
    · cases hhead
    · -- The root is no component that is spelled.
      have hroot := isSpelled_of_mem_spelled (List.mem_of_mem_head? hhead)
      cases hroot.ofSegment?

/-- The names that components lead to. -/
def namesOf (workingDirectory : Path) (components : List Component) : List String :=
  ((if components.head? = some .root then [] else workingDirectory.components) ++
    components).foldl descend []

theorem namesFrom_eq_namesOf (workingDirectory path : Path) :
    namesFrom workingDirectory path = namesOf workingDirectory path.components := by
  simp only [namesFrom, namesOf, isAbsolute_iff]

/-- **Names at the end of a path** are gone down one by one. -/
theorem namesFrom_of_components (workingDirectory : Path) {path : Path} {front : List Component}
    {names : List String} (h : path.components = front ++ names.map .name) :
    namesFrom workingDirectory path = namesOf workingDirectory front ++ names := by
  have hdown : ∀ before : List String, (names.map Component.name).foldl descend before =
      before ++ names := by
    clear h
    induction names with
    | nil => exact fun before => (List.append_nil before).symm
    | cons name names ih =>
      intro before
      rw [List.map_cons, List.foldl_cons, ih, descend, List.append_assoc]
      rfl
  have hhead : path.components.head? = some .root ↔ front.head? = some .root := by
    rw [h]
    cases front with
    | nil => cases names <;> simp
    | cons => rfl
  rw [namesFrom_eq_namesOf, namesOf, namesOf, h, ← List.append_assoc, List.foldl_append, hdown]
  simp only [← h, hhead]

theorem namesFrom_eq (workingDirectory path : Path) :
    namesFrom workingDirectory path =
      path.spelled.foldl descend
        (if path.isAbsolute then [] else workingDirectory.spelled.foldl descend []) := by
  unfold namesFrom
  rw [List.foldl_append, foldl_descend_components]
  split
  · rfl
  · rw [foldl_descend_components]

theorem isName_of_mem_descend {names : List String} {component : Component}
    (hnames : ∀ name ∈ names, IsName name) (hcomponent : component.IsSpelled) :
    ∀ name ∈ descend names component, IsName name := by
  intro name hmem
  cases component with
  | name last =>
    rcases List.mem_append.mp hmem with hmem | hmem
    · exact hnames name hmem
    · exact List.mem_singleton.mp hmem ▸ hcomponent
  | parent => exact hnames name ((List.dropLast_sublist names).subset hmem)
  | _ => exact hnames name hmem

theorem isName_of_mem_foldl_descend {components : List Component} {names : List String}
    (hnames : ∀ name ∈ names, IsName name)
    (hcomponents : ∀ component ∈ components, component.IsSpelled) :
    ∀ name ∈ components.foldl descend names, IsName name := by
  induction components generalizing names with
  | nil => exact hnames
  | cons component components ih =>
    obtain ⟨hcomponent, hcomponents⟩ := List.forall_mem_cons.mp hcomponents
    exact ih (isName_of_mem_descend hnames hcomponent) hcomponents

/-- The names that lead to a path are spelled in it or in the working directory. -/
theorem isName_of_mem_namesFrom (workingDirectory path : Path) :
    ∀ name ∈ namesFrom workingDirectory path, IsName name := by
  rw [namesFrom_eq]
  refine isName_of_mem_foldl_descend ?_ fun component => isSpelled_of_mem_spelled
  split
  · exact List.forall_mem_nil _
  · exact isName_of_mem_foldl_descend (List.forall_mem_nil _) fun component =>
      isSpelled_of_mem_spelled

/-! ## Entries -/

section Join
variable {path : Path} {name : String}

theorem Component.IsSpelled.text_ne_empty {component : Component} (h : component.IsSpelled) :
    component.text ≠ "" := by
  intro hempty
  have hof := h.ofSegment?
  rw [hempty] at hof
  cases hof

theorem text_join_ne_empty (path : Path) (hname : IsName name) : (path.join name).text ≠ "" := by
  have hne : name ≠ "" := hname.text_ne_empty
  unfold join
  split <;> simp [hne]

/-- The segments of an entry are those of its directory and its name; an empty one at the end is
left out. -/
theorem segments_join (path : Path) (hname : IsName name) :
    ∃ front, front ≠ [] ∧ (path.join name).segments = front ++ [name] ∧
      (path.segments = front ∨ path.segments = front ++ [""]) := by
  have hsplit : split name.toList = [name.toList] := split_of_not_mem hname.slash_not_mem
  unfold join
  split
  · next hlast =>
    -- The slash at the end stands before the name, too.
    obtain ⟨front, hfront⟩ : ∃ front, path.text.toList = front ++ ['/'] :=
      ⟨_, (List.dropLast_append_getLast? _ (beq_iff_eq.mp hlast)).symm⟩
    refine ⟨(split front).map String.ofList, ?_, ?_, .inr ?_⟩
    · simpa using split_ne_nil front
    · simp [segments, hfront, List.append_assoc, split_append_slash, hsplit]
    · simp [segments, hfront, split_append_slash, split]
  · refine ⟨path.segments, ?_, ?_, .inl rfl⟩
    · simpa [segments] using split_ne_nil path.text.toList
    · simp [segments, List.append_assoc, split_append_slash, hsplit]

theorem isAbsolute_join (hpath : path.text ≠ "") (name : String) :
    (path.join name).isAbsolute = path.isAbsolute := by
  have hne : path.text.toList ≠ [] := fun hnil => hpath (String.toList_eq_nil_iff.mp hnil)
  unfold isAbsolute join
  split
  · rw [String.toList_append, List.head?_append_of_ne_nil _ hne]
  · rw [String.append_assoc, String.toList_append, List.head?_append_of_ne_nil _ hne]

theorem spelled_join (path : Path) (hname : IsName name) :
    (path.join name).spelled = path.spelled ++ [.name name] := by
  obtain ⟨front, -, hjoin, hpath⟩ := segments_join path hname
  have hentry : (path.join name).spelled =
      front.filterMap Component.ofSegment? ++ [.name name] := by
    have hof : Component.ofSegment? name = some (.name name) := hname.ofSegment?
    rw [spelled, hjoin, List.filterMap_append, List.filterMap_cons_some hof]
    rfl
  rw [hentry, spelled]
  rcases hpath with hpath | hpath
  · rw [hpath]
  · rw [hpath, List.filterMap_append]
    congr 1
    exact (List.append_nil _).symm

/-- **The components of an entry** are those of its directory and its name. -/
theorem components_join (hpath : path.text ≠ "") (hname : IsName name) :
    (path.join name).components = path.components ++ [.name name] := by
  have hlead : (path.join name).lead = path.lead := by
    obtain ⟨front, hfront, hjoin, hsegments⟩ := segments_join path hname
    have hhead : (path.join name).segments.head? = path.segments.head? := by
      rw [hjoin, List.head?_append_of_ne_nil _ hfront]
      rcases hsegments with hsegments | hsegments
      · rw [hsegments]
      · rw [hsegments, List.head?_append_of_ne_nil _ hfront]
    unfold lead
    rw [isAbsolute_join hpath, hhead]
  rw [components_eq, components_eq, hlead, spelled_join path hname, List.append_assoc]

theorem components_foldl_join {names : List String} (hpath : path.text ≠ "")
    (hnames : ∀ name ∈ names, IsName name) :
    (names.foldl join path).components = path.components ++ names.map .name := by
  induction names generalizing path with
  | nil => exact (List.append_nil _).symm
  | cons name names ih =>
    obtain ⟨hname, hnames⟩ := List.forall_mem_cons.mp hnames
    rw [List.foldl_cons, ih (text_join_ne_empty path hname) hnames, components_join hpath hname,
      List.append_assoc]
    rfl

theorem namesFrom_foldl_join (workingDirectory : Path) {names : List String}
    (hpath : path.text ≠ "") (hnames : ∀ name ∈ names, IsName name) :
    namesFrom workingDirectory (names.foldl join path) =
      namesFrom workingDirectory path ++ names := by
  have hself : path.components = path.components ++ [].map Component.name :=
    (List.append_nil _).symm
  rw [namesFrom_of_components workingDirectory (components_foldl_join hpath hnames),
    namesFrom_of_components workingDirectory hself, List.append_nil]

end Join

/-! ## Paths as they are printed -/

/-- Components that are put together are found again. -/
theorem spelled_ofComponents {components : List Component} (hne : components ≠ [])
    (h : ∀ component ∈ components, component.IsSpelled) :
    (ofComponents components).isAbsolute = false ∧
      (ofComponents components).spelled = components := by
  obtain ⟨first, rest, rfl⟩ := List.exists_cons_of_ne_nil hne
  have hof : ofComponents (first :: rest) =
      ⟨String.intercalate "/" ((first :: rest).map Component.text)⟩ := by
    cases first with
    | root => cases (h .root List.mem_cons_self).ofSegment?
    | _ => rfl
  have hsplit : split (ofComponents (first :: rest)).text.toList =
      (first :: rest).map fun component => component.text.toList := by
    rw [hof, split_eq_splitOn, String.toList_intercalate, List.map_map]
    refine List.splitOn_intercalate '/' ?_ (by simp)
    simpa using ⟨(h first List.mem_cons_self).slash_not_mem,
      fun component hmem => (h component (List.mem_cons_of_mem _ hmem)).slash_not_mem⟩
  constructor
  · -- Before a slash at the beginning there would be an empty segment.
    unfold isAbsolute
    rw [beq_eq_false_iff_ne]
    intro hhead
    obtain ⟨chars, hchars⟩ := List.head?_eq_some_iff.mp hhead
    rw [hchars, split, if_pos (beq_self_eq_true _)] at hsplit
    exact (h first List.mem_cons_self).text_ne_empty
      (String.toList_eq_nil_iff.mp (List.cons.inj hsplit).1.symm)
  · have hsegments : (ofComponents (first :: rest)).segments =
        (first :: rest).map Component.text := by
      rw [segments, hsplit, List.map_map]
      exact List.map_congr_left fun component _ => String.ofList_toList
    rw [spelled, hsegments, List.filterMap_map]
    exact (List.filterMap_congr fun component hmem => (h component hmem).ofSegment?).trans
      List.filterMap_some

/-- What two lists have in common at their beginnings stands before what each has of its own. -/
theorem exists_common {α : Type} [DecidableEq α] (as bs : List α) :
    ∃ common, as = common ++ (withoutCommon as bs).1 ∧ bs = common ++ (withoutCommon as bs).2 := by
  fun_induction withoutCommon as bs with
  | case1 as a bs ih =>
    obtain ⟨common, has, hbs⟩ := ih
    exact ⟨a :: common, congrArg (List.cons a) has, congrArg (List.cons a) hbs⟩
  | case2 => exact ⟨[], rfl, rfl⟩
  | case3 => exact ⟨[], rfl, rfl⟩

/-- Parents take back names, as many as they are. -/
theorem foldl_descend_parents (names : List String) {components : List Component}
    (h : ∀ component ∈ components, ∃ name, component = .name name) :
    (components.map fun _ => Component.parent).foldl descend (components.foldl descend names) =
      names := by
  induction components using List.reverseRecOn with
  | nil => rfl
  | append_singleton components last ih =>
    obtain ⟨name, rfl⟩ := h last (by simp)
    have hmap : (components ++ [Component.name name]).map (fun _ => Component.parent) =
        .parent :: components.map fun _ => .parent := by
      rw [List.map_const', List.map_const', List.length_append, List.length_singleton,
        List.replicate_succ]
    rw [hmap, List.foldl_append, List.foldl_cons]
    have hback : descend ([Component.name name].foldl descend (components.foldl descend names))
        .parent = components.foldl descend names := by
      simp [descend]
    rw [hback]
    exact ih fun component hmem => h component (List.mem_append_left _ hmem)

/-- A path from the root on that never goes up. -/
structure IsCanonical (path : Path) : Prop where
  isAbsolute : path.isAbsolute = true
  parent_not_mem : Component.parent ∉ path.spelled

theorem IsCanonical.exists_name {path : Path} (h : path.IsCanonical) {component : Component}
    (hmem : component ∈ path.spelled) : ∃ name, component = .name name := by
  cases component with
  | parent => exact absurd hmem h.parent_not_mem
  | name name => exact ⟨name, rfl⟩
  | _ => cases (isSpelled_of_mem_spelled hmem).ofSegment?

theorem components_of_isAbsolute {path : Path} (h : path.isAbsolute = true) :
    path.components = .root :: path.spelled := by
  rw [components_eq, lead, if_pos h]
  rfl

/-- What leads to a path from the root on: parents for what the working directory has of its own,
and then what the path has of its own. -/
theorem exists_between {workingDirectory path : Path} (hwd : workingDirectory.isAbsolute = true)
    (hpath : path.isAbsolute = true) :
    ∃ common left right, workingDirectory.spelled = common ++ left ∧
      path.spelled = common ++ right ∧
      between workingDirectory.components path.components =
        left.map (fun _ => .parent) ++ right := by
  obtain ⟨common, hdirectory, htarget⟩ := exists_common workingDirectory.spelled path.spelled
  refine ⟨common, _, _, hdirectory, htarget, ?_⟩
  rw [components_of_isAbsolute hwd, components_of_isAbsolute hpath, between, withoutCommon,
    if_pos rfl]

/-- **A path as it is printed** leads where the path leads. -/
theorem namesFrom_shown {workingDirectory : Path} (hwd : workingDirectory.IsCanonical)
    (path : Path) :
    namesFrom workingDirectory ⟨shown workingDirectory path⟩ = namesFrom workingDirectory path := by
  by_cases habsolute : path.isAbsolute = true
  · obtain ⟨common, left, right, hdirectory, htarget, hbetween⟩ :=
      exists_between hwd.isAbsolute habsolute
    rw [shown, if_pos habsolute, hbetween]
    split
    · rfl
    · next hne =>
      have hspelled : ∀ component ∈ left.map (fun _ => Component.parent) ++ right,
          component.IsSpelled := by
        intro component hmem
        rcases List.mem_append.mp hmem with hmem | hmem
        · obtain ⟨_, -, rfl⟩ := List.mem_map.mp hmem
          exact ⟨rfl, by decide⟩
        · exact isSpelled_of_mem_spelled (htarget ▸ List.mem_append_right _ hmem)
      obtain ⟨hrelative, hfound⟩ := spelled_ofComponents (by simpa using hne) hspelled
      have hnames : ∀ component ∈ left, ∃ name, component = .name name := fun component hmem =>
        hwd.exists_name (hdirectory ▸ List.mem_append_right _ hmem)
      rw [namesFrom_eq, hrelative, hfound, namesFrom_eq, if_pos habsolute, htarget, hdirectory]
      simp only [Bool.false_eq_true, if_false, List.foldl_append, foldl_descend_parents _ hnames]
  · rw [shown, if_neg habsolute]

end TypeDrift.Path
