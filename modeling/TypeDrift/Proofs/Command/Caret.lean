import TypeDrift.Proofs.Check.Excerpts

/-! # Carets

A line is shown with four blanks for each of its tabs, and below it a caret is to point at one of its
characters.  The two texts are made apart: the shown line from the whole line, and the blanks left of
the caret from what stands before the column.

To compare them, each character of the shown line is kept together with the index of the character
that it shows (`traced`).  What is shown of the characters before an index comes before anything that is
shown of the character there (`traced_split`), and has as many characters as there are blanks left of
the caret (`caret_eq`).
-/
namespace TypeDrift.Command.Excerpt

/-- What is shown of a character. -/
def image (c : Char) : List Char := if c = '\t' then List.replicate 4 ' ' else [c]

/-- A line as it is shown, each character with the index of the one that it shows.  The indices are
counted from `index` on. -/
def traced (index : Nat) : List Char → List (Char × Nat)
  | [] => []
  | c :: rest => (image c).map (·, index) ++ traced (index + 1) rest

theorem length_image (c : Char) : (image c).length = width c := by
  unfold image width
  split <;> rfl

/-- The characters that are kept with indices are those that are shown. -/
theorem map_fst_traced (index : Nat) (line : List Char) :
    (traced index line).map Prod.fst = expanded line := by
  induction line generalizing index with
  | nil => rfl
  | cons c rest ih =>
    rw [traced, List.map_append, List.map_map, ih]
    exact congrArg (· ++ expanded rest) (List.map_id (image c))

theorem traced_append (index : Nat) (before after : List Char) :
    traced index (before ++ after) =
      traced index before ++ traced (index + before.length) after := by
  induction before generalizing index with
  | nil => rfl
  | cons c before ih =>
    rw [List.cons_append, traced, traced, ih, List.append_assoc, List.length_cons,
      Nat.add_assoc index 1, Nat.add_comm 1]

/-- Every index is that of a character. -/
theorem bounds_of_mem_traced {index : Nat} {line : List Char} {entry : Char × Nat}
    (h : entry ∈ traced index line) : index ≤ entry.2 ∧ entry.2 < index + line.length := by
  induction line generalizing index with
  | nil => cases h
  | cons c rest ih =>
    rw [List.length_cons]
    rcases List.mem_append.mp h with hfirst | hrest
    · obtain ⟨_, -, rfl⟩ := List.mem_map.mp hfirst
      exact ⟨Nat.le_refl index, by omega⟩
    · have hbounds := ih hrest
      omega

/-- The places of a shown line fall into those before a character, those that show it, and those
behind it. -/
structure Shows (line : List Char) (index place : Nat) (c : Char) : Prop where
  before : ∀ entry ∈ (traced 0 line).take place, entry.2 < index
  here : ((traced 0 line).drop place).take (image c).length = (image c).map (·, index)
  behind : ∀ entry ∈ (traced 0 line).drop (place + (image c).length), index < entry.2

theorem traced_split {text : List Char} {index : Nat} {c : Char} (h : text[index]? = some c) :
    Shows text index (expanded (text.take index)).length c := by
  obtain ⟨hlt, hc⟩ := List.getElem?_eq_some_iff.mp h
  have hlength : (text.take index).length = index := List.length_take_of_le (Nat.le_of_lt hlt)
  have htext : text.take index ++ c :: text.drop (index + 1) = text := by
    rw [← hc, ← List.drop_eq_getElem_cons hlt, List.take_append_drop]
  have hplace : (traced 0 (text.take index)).length = (expanded (text.take index)).length := by
    rw [← map_fst_traced 0, List.length_map]
  have htraced : traced 0 text = traced 0 (text.take index) ++
      ((image c).map (·, index) ++ traced (index + 1) (text.drop (index + 1))) := by
    conv_lhs => rw [← htext, traced_append, hlength, Nat.zero_add, traced]
  have himage : ((image c).map (·, index)).length = (image c).length := List.length_map _
  refine ⟨?_, ?_, ?_⟩ <;> rw [htraced]
  · intro entry hentry
    rw [List.take_left' hplace] at hentry
    have hbounds := bounds_of_mem_traced hentry
    omega
  · rw [List.drop_left' hplace, List.take_left' himage]
  · intro entry hentry
    rw [← List.drop_drop, List.drop_left' hplace, List.drop_left' himage] at hentry
    exact (bounds_of_mem_traced hentry).1

/-- There are as many blanks left of the caret as characters are shown of what stands before the
column. -/
theorem caret_eq (line : List Char) (column : Nat) :
    caret line column =
      List.replicate (expanded (line.take (column - 1))).length ' ' ++ ['^'] := by
  have hblanks : ∀ front : List Char, (front.flatMap fun c => List.replicate (width c) ' ') =
      List.replicate (expanded front).length ' ' := by
    intro front
    induction front with
    | nil => rfl
    | cons c front ih =>
      have hexpanded : expanded (c :: front) = image c ++ expanded front := rfl
      rw [List.flatMap_cons, ih, hexpanded, List.length_append, length_image,
        List.replicate_append_replicate]
  rw [caret, hblanks]

/-- **The caret stands below the character in its column.**  Of each column of a line two lines are
printed: the line as it is shown, and blanks with a caret behind them, both set in by as much.  The
place below which the caret stands is the first one that shows the character in that column, and for a
tab the first of its four blanks.  These are the lines that follow a finding, if it stands in that
column and the file has that line. -/
theorem caret_below_character (line : String) {column : Nat} (hfirst : 1 ≤ column)
    (hlast : column ≤ line.length) :
    ∃ c place, line.toList[column - 1]? = some c ∧ Shows line.toList (column - 1) place c ∧
      lines line column =
        Text.blanks 6 ++ String.ofList ((traced 0 line.toList).map Prod.fst) ++ "\n" ++
          (Text.blanks 6 ++ (Text.blanks place ++ "^") ++ "\n") ∧
      ∀ (shown : String) (source : SourceFile) (finding : Finding),
        source.line? finding.place.line = some line → finding.place.column = column →
          render shown (some source) finding = render shown none finding ++ lines line column := by
  have hlt : column - 1 < line.toList.length := by
    rw [String.length_toList]
    omega
  have hc : line.toList[column - 1]? = some line.toList[column - 1] :=
    List.getElem?_eq_getElem hlt
  refine ⟨_, _, hc, traced_split hc, ?_, ?_⟩
  · have hcaret : String.ofList (caret line.toList column) =
        Text.blanks (expanded (line.toList.take (column - 1))).length ++ "^" := by
      rw [caret_eq, String.ofList_append]
      rfl
    rw [map_fst_traced, lines, hcaret]
    simp only [String.append_assoc]
  · rintro shown source finding hline rfl
    have hplaced : finding.isPlaced = true := by
      unfold Finding.isPlaced
      cases hnumber : finding.place.line with
      | zero =>
        rw [hnumber] at hline
        cases hline
      | succ number => exact decide_eq_true (Nat.succ_pos number)
    exact SourceFile.render_of_line hplaced hline shown

/-- A caret below a tab, which stands behind another tab and a letter of two bytes. -/
theorem caret_below_character_tab :
    lines "\té\tx <- 1" 3 = "          é    x <- 1\n           ^\n" ∧
      ∃ place, Shows "\té\tx <- 1".toList 2 place '\t' ∧
        lines "\té\tx <- 1" 3 =
          "          é    x <- 1\n" ++ (Text.blanks 6 ++ (Text.blanks place ++ "^") ++ "\n") := by
  obtain ⟨c, place, hc, hshows, hlines, -⟩ :=
    caret_below_character "\té\tx <- 1" (show 1 ≤ 3 by decide) (by decide +kernel)
  have htab : "\té\tx <- 1".toList[3 - 1]? = some '\t' := by decide +kernel
  have hshown : Text.blanks 6 ++
      String.ofList ((traced 0 "\té\tx <- 1".toList).map Prod.fst) ++ "\n" =
        "          é    x <- 1\n" := by decide +kernel
  cases hc.symm.trans htab
  rw [hshown] at hlines
  exact ⟨by decide +kernel, place, hshows, hlines⟩

end TypeDrift.Command.Excerpt
