import TypeDrift.Check.File
import TypeDrift.Command.Excerpt
import TypeDrift.Proofs.Check.Drift
import TypeDrift.Proofs.Script.Assignments
import TypeDrift.Proofs.Text.Lines

/-! # Findings on their lines

A finding is shown on the line of its file that has the number of its place.  The number comes from
the scanner, which ends lines at carriage returns, too; the line comes from the file, which does not
if no line feed follows.  So a token is always found with the lines counted as the file counts them
(`showsAt_fedPlace`), and at the place that it has for the scanner if no carriage return stands alone
before it.  Every finding with a place stands at a token (`exists_token_of_finding`), hence it can be
shown under the same condition (`shows_findings`), and not without it (`returns_hide_lines`).
-/
namespace TypeDrift

open Text Command

namespace Token

/-- The text of a token stands behind some of the contents of a file, and its place is counted from
there. -/
structure StandsBehind (contents : List Char) (token : Token) (before : List Char) : Prop where
  cut : ∃ after, contents = before ++ (token.text.toList ++ after)
  start : token.span.start = .behind before
  text_ne_nil : token.text.toList ≠ []
  head : ∀ c ∈ token.text.toList.head?, isBreak c = false

theorem standsBehind_of_solid {kind : Kind} {text rest before : List Char}
    (hsolid : Piece.Solid kind text) (htext : text ≠ []) :
    StandsBehind (before ++ (text ++ rest))
      ⟨⟨kind, String.ofList text⟩, ⟨.after .start before, (Position.after .start before).last text⟩⟩
      before where
  cut := ⟨rest, by rw [String.toList_ofList]⟩
  start := Position.after_start before
  text_ne_nil := by rwa [String.toList_ofList]
  head := by
    rw [String.toList_ofList]
    exact hsolid.head

theorem exists_standsBehind_from {before cs : List Char} {tokens : List Token}
    (h : scanFrom (.after .start before) cs = .ok tokens) (hsplit : Splits before cs) :
    ∀ token ∈ tokens, token.isTrivia = false →
      ∃ front, StandsBehind (before ++ cs) token front := by
  refine scanFrom_induction (motive := fun place cs tokens =>
    ∀ before, place = .after .start before → Splits before cs →
      ∀ token ∈ tokens, token.isTrivia = false →
        ∃ front, StandsBehind (before ++ cs) token front)
    ?_ ?_ h before rfl hsplit
  · rintro place before - - token htoken htrivia
    cases List.mem_singleton.mp htoken
    cases htrivia
  · rintro place c rest piece tokens hpiece - ih before rfl hsplit token htoken htrivia
    have htext := Piece.read_text_ne_nil hpiece
    have hshape := Piece.read_shape hpiece
    rw [← Piece.read_append hpiece] at hsplit ⊢
    rcases List.mem_append.mp htoken with hfirst | hlater
    · -- A gap has no token, and that of a line break is not written out.
      cases hshape with
      | blank _ => cases hfirst
      | comment _ _ => cases hfirst
      | newline _ _ =>
        rw [ofPiece_newline] at hfirst
        cases List.mem_singleton.mp hfirst
        cases htrivia
      | token hsolid =>
        rw [ofPiece_token _ hsolid.fits.1.1] at hfirst
        cases List.mem_singleton.mp hfirst
        exact ⟨before, standsBehind_of_solid hsolid htext⟩
    · have hplace := Position.after_append .start hsplit.of_append
      rw [← List.append_assoc]
      exact ih (before ++ piece.text) hplace.symm (hshape.splits.append_left htext before) token
        hlater htrivia

/-- Every token that is written out stands somewhere in the text. -/
theorem exists_standsBehind {source : String} {tokens : List Token} {token : Token}
    (h : scan source = .ok tokens) (htoken : token ∈ tokens) (htrivia : token.isTrivia = false) :
    ∃ before, StandsBehind source.toList token before := by
  have hfrom : scanFrom (.after .start []) source.toList = .ok tokens := h
  exact exists_standsBehind_from hfrom (splits_nil_left _) token htoken htrivia

/-- Counted by the scanner, a token has as many lines more before it as carriage returns stand alone
there. -/
theorem StandsBehind.line_eq {contents before : List Char} {token : Token}
    (h : StandsBehind contents token before) :
    token.span.start.line = (fedPlace before).line + loneReturns before := by
  rw [h.start]
  show lineBreaks before + 1 = before.count '\n' + 1 + loneReturns before
  rw [lineBreaks_eq]
  omega

theorem StandsBehind.start_eq_fedPlace {contents before : List Char} {token : Token}
    (h : StandsBehind contents token before) (hlone : loneReturns before = 0) :
    token.span.start = fedPlace before :=
  h.start.trans (fedPlace_eq_behind hlone).symm

/-- Not even a carriage return right before a token is part of a line break that goes on in it. -/
theorem StandsBehind.loneReturns_le {contents before : List Char} {token : Token}
    (h : StandsBehind contents token before) : loneReturns before ≤ loneReturns contents := by
  obtain ⟨after, rfl⟩ := h.cut
  obtain ⟨c, text, htext⟩ := List.exists_cons_of_ne_nil h.text_ne_nil
  have hc : c ≠ '\n' := by
    rintro rfl
    cases h.head '\n' (by rw [htext]; rfl)
  rw [htext, List.cons_append, loneReturns_append (splits_of_head _ hc)]
  exact Nat.le_add_right _ _

end Token

namespace SourceFile

variable {source : SourceFile}

/-- The line of a place is there, and goes on from its column with what a text has before its first
line break. -/
def ShowsAt (source : SourceFile) (place : Position) (text : List Char) : Prop :=
  ∃ line, source.line? place.line = some line ∧
    text.takeWhile (!isBreak ·) <+: line.toList.drop (place.column - 1)

/-- The line of a finding is there and reaches to its place, and it is printed below the finding with
a caret at that place. -/
def CanShow (source : SourceFile) (finding : Finding) : Prop :=
  ∃ line, source.line? finding.place.line = some line ∧
    1 ≤ finding.place.column ∧ finding.place.column ≤ line.length ∧
    ∀ shown, Excerpt.render shown (some source) finding =
      Excerpt.render shown none finding ++ Excerpt.lines line finding.place.column

theorem showsAt_fedPlace {token : Token} {before : List Char}
    (h : token.StandsBehind source.contents.toList before) :
    source.ShowsAt (fedPlace before) token.text.toList := by
  obtain ⟨after, hcut⟩ := h.cut
  obtain ⟨c, text, htext⟩ := List.exists_cons_of_ne_nil h.text_ne_nil
  obtain ⟨first, more, hlines⟩ := exists_lines c (text ++ after)
  have hhead : ∀ d ∈ (c :: (text ++ after)).head?, isBreak d = false := by
    intro d hd
    refine h.head d ?_
    rwa [htext]
  refine ⟨String.ofList (openLine before ++ first), ?_, ?_⟩
  · show ((lines source.contents.toList)[before.count '\n']?).map String.ofList = _
    rw [hcut, htext, List.cons_append, getElem?_lines hlines hhead]
    rfl
  · have hprefix : (c :: text).takeWhile (!isBreak ·) <+:
        (c :: (text ++ after)).takeWhile (!isBreak ·) := by
      rw [← List.cons_append, List.takeWhile_append]
      split
      · exact (List.takeWhile_prefix _).trans (List.prefix_append _ _)
      · exact List.prefix_rfl
    rw [String.toList_ofList, htext]
    show _ <+: (openLine before ++ first).drop (openLine before).length
    rw [List.drop_left]
    exact hprefix.trans (takeWhile_isPrefix hlines)

/-- Where a token is shown, its line reaches to its place. -/
theorem ShowsAt.column_le {place : Position} {text : List Char} (h : source.ShowsAt place text)
    (htext : text ≠ []) (hhead : ∀ c ∈ text.head?, isBreak c = false) :
    ∃ line, source.line? place.line = some line ∧ place.column - 1 < line.length := by
  obtain ⟨line, hline, hprefix⟩ := h
  obtain ⟨c, text, rfl⟩ := List.exists_cons_of_ne_nil htext
  refine ⟨line, hline, ?_⟩
  have hc : isBreak c = false := hhead c rfl
  have hlength := hprefix.length_le
  rw [List.takeWhile_cons_of_pos (by simp [hc]), List.length_cons, List.length_drop,
    String.length_toList] at hlength
  omega

theorem render_of_line {finding : Finding} {line : String} (hplaced : finding.isPlaced = true)
    (hline : source.line? finding.place.line = some line) (shown : String) :
    Excerpt.render shown (some source) finding =
      Excerpt.render shown none finding ++ Excerpt.lines line finding.place.column := by
  simp [Excerpt.render, hplaced, hline, String.append_assoc]

end SourceFile

namespace Script

variable {source : String} {script : Script}

/-- A token stands at a place. -/
def TokenAt (script : Script) (place : Position) : Prop :=
  ∃ token ∈ script.tokens.toList, token.isTrivia = false ∧ place = token.span.start

theorem tokenAt_assignment (h : read source = .ok script) {assignment : Assignment}
    (hmem : assignment ∈ script.assignments) : script.TokenAt assignment.place := by
  obtain ⟨e, he, hrecord⟩ := List.mem_filterMap.mp (List.mem_mergeSort.mp hmem)
  have hbinds : e.bindsName = true := by
    by_contra hnot
    rw [assignment?_eq_none (Bool.eq_false_iff.mpr hnot)] at hrecord
    cases hrecord
  obtain ⟨record, hrecord', index, left, right, hat⟩ := exists_record h he hbinds
  cases hrecord.symm.trans hrecord'
  obtain ⟨token, htoken, hkind, hplace⟩ := hat.place
  refine ⟨token, ?_, ?_, hplace⟩
  · rw [← Array.getElem?_toList] at htoken
    exact List.mem_of_getElem? htoken
  · show token.kind.isTrivia = false
    rw [hkind]
    cases assignment.operator <;> rfl

theorem tokenAt_callSite (h : read source = .ok script) {site : CallSite}
    (hmem : site ∈ script.callSites) : script.TokenAt site.place := by
  obtain ⟨e, he, hsite⟩ := List.mem_filterMap.mp (List.mem_mergeSort.mp hmem)
  obtain ⟨callee, hcallee, hplace⟩ := place_callSite? hsite
  have hlaid := laidOut_of_read h callee (mem_nodes_of_mem_children he hcallee)
  obtain ⟨token, htoken, htrivia, hspan⟩ := exists_token_of_writtenAt hlaid.first
  refine ⟨token, ?_, htrivia, hplace.trans (congrArg Span.start hspan)⟩
  rw [← Array.getElem?_toList] at htoken
  exact List.mem_of_getElem? htoken

end Script

/-- The steps of a history follow the assignments. -/
theorem Bindings.assignment_mem_of_mem_history {registry : Registry} {bindings : Bindings}
    {records : List Assignment} {step : Step} (h : step ∈ bindings.history registry records) :
    step.assignment ∈ records := by
  induction records generalizing bindings with
  | nil => cases h
  | cons record records ih =>
    rcases List.mem_cons.mp h with rfl | hlater
    · exact List.mem_cons_self
    · exact List.mem_cons_of_mem _ (ih hlater)

/-- The findings for names that drift, along the tree. -/
def Script.driftFindings (registry : Registry) (script : Script) : List Finding :=
  (Bindings.empty.history registry (script.inOrder.filterMap script.assignment?)).filterMap
    Finding.ofStep?

namespace Checker

theorem mem_findings_of_drift {checker : Checker} {source : String} {script : Script}
    {finding : Finding} (h : Script.read source = .ok script)
    (hmem : finding ∈ script.driftFindings checker.registry) :
    finding ∈ (checker.check source).findings := by
  rw [Script.driftFindings, ← Script.assignments_eq h] at hmem
  rw [check, h]
  exact List.mem_append_left _ hmem

/-- **A finding with a place stands at a token.** -/
theorem exists_token_of_finding (checker : Checker) {source : String} {tokens : List Token}
    (hscan : Token.scan source = .ok tokens) {finding : Finding}
    (hmem : finding ∈ (checker.check source).findings) (hplaced : finding.isPlaced = true) :
    ∃ token ∈ tokens, token.isTrivia = false ∧ finding.place = token.span.start := by
  unfold check at hmem
  cases hread : Script.read source with
  | error fault =>
    -- The one error there is has no place.
    rw [hread] at hmem
    cases List.mem_singleton.mp hmem
    cases hplaced
  | ok script =>
    rw [hread] at hmem
    have htokens : script.tokens.toList = tokens := by
      obtain ⟨row, hrow, hscript, -⟩ := Script.exists_row_of_read hread
      cases hscan.symm.trans hrow
      rw [hscript]
    rw [← htokens]
    rcases List.mem_append.mp hmem with hwarning | hinfo
    · obtain ⟨step, hstep, hdrift⟩ := List.mem_filterMap.mp hwarning
      obtain ⟨previous, -, -, -, -, rfl⟩ := Finding.ofStep?_eq_some_iff.mp hdrift
      exact Script.tokenAt_assignment hread (Bindings.assignment_mem_of_mem_history hstep)
    · obtain ⟨site, hsite, hcall⟩ := List.mem_filterMap.mp hinfo
      obtain ⟨expected, -, rfl⟩ := Option.map_eq_some_iff.mp hcall
      exact Script.tokenAt_callSite hread hsite

end Checker

namespace SourceFile

/-- **Tokens and findings are shown where they stand**, if no carriage return stands alone before
them.  Every token that is written out stands behind some of the contents, and is there in the lines
of the file, with their numbers less than the scanner's by the carriage returns that stand alone
before it.  Every finding with a place stands at such a token; if its line has the same number for
both, it can be shown on it. -/
theorem shows_findings {source : SourceFile} {tokens : List Token}
    (hscan : Token.scan source.contents = .ok tokens) :
    (∀ token ∈ tokens, token.isTrivia = false →
      ∃ before, token.StandsBehind source.contents.toList before ∧
        token.span.start.line = (fedPlace before).line + loneReturns before ∧
        source.ShowsAt (fedPlace before) token.text.toList ∧
        (loneReturns before = 0 → source.ShowsAt token.span.start token.text.toList)) ∧
      ∀ checker tree path, SourceFile.read tree path = .ok source →
        ∀ finding ∈ (Checker.checkFile checker tree path).findings, finding.isPlaced = true →
          ∃ token ∈ tokens, token.isTrivia = false ∧ finding.place = token.span.start ∧
            ∃ before, token.StandsBehind source.contents.toList before ∧
              (loneReturns before = 0 → source.CanShow finding) := by
  have hshows : ∀ (token : Token) before, token.StandsBehind source.contents.toList before →
      loneReturns before = 0 → source.ShowsAt token.span.start token.text.toList := by
    intro token before hstands hlone
    rw [hstands.start_eq_fedPlace hlone]
    exact showsAt_fedPlace hstands
  constructor
  · intro token htoken htrivia
    obtain ⟨before, hstands⟩ := Token.exists_standsBehind hscan htoken htrivia
    exact ⟨before, hstands, hstands.line_eq, showsAt_fedPlace hstands, hshows token before hstands⟩
  · intro checker tree path hread finding hfinding hplaced
    rw [Checker.checkFile, hread] at hfinding
    obtain ⟨token, htoken, htrivia, hplace⟩ :=
      checker.exists_token_of_finding hscan hfinding hplaced
    obtain ⟨before, hstands⟩ := Token.exists_standsBehind hscan htoken htrivia
    refine ⟨token, htoken, htrivia, hplace, before, hstands, fun hlone => ?_⟩
    obtain ⟨line, hline, hcolumn⟩ :=
      (hshows token before hstands hlone).column_le hstands.text_ne_nil hstands.head
    rw [← hplace] at hline hcolumn
    have hpositive : 1 ≤ finding.place.column := by
      rw [hplace, hstands.start]
      exact Nat.le_add_left 1 _
    exact ⟨line, hline, hpositive, by omega, render_of_line hplaced hline⟩

/-- Line breaks of two characters, a tab, a comment, a string over two lines and a byte-order mark. -/
theorem shows_findings_mixed :
    let tree : FileTree :=
      ⟨.directory [("a.R",
        .file "\ufeffx <- 1 # é\r\n\tx <- 'a\nb'\r\nmean(x)".toUTF8)], ⟨"/"⟩⟩
    let source : SourceFile := ⟨⟨"a.R"⟩, "x <- 1 # é\r\n\tx <- 'a\nb'\r\nmean(x)"⟩
    let findings := (Checker.checkFile ⟨.empty, false⟩ tree ⟨"a.R"⟩).findings
    (∃ finding ∈ findings, finding.place = ⟨2, 4⟩) ∧
      (∀ finding ∈ findings, finding.isPlaced = true → source.CanShow finding) ∧
      ∃ tokens, Token.scan source.contents = .ok tokens ∧
        ∀ token ∈ tokens, token.isTrivia = false →
          source.ShowsAt token.span.start token.text.toList := by
  intro tree source findings
  have hread : SourceFile.read tree ⟨"a.R"⟩ = .ok source := by
    have hbytes : tree.readBytes ⟨"a.R"⟩ =
        .ok "\ufeffx <- 1 # é\r\n\tx <- 'a\nb'\r\nmean(x)".toUTF8 := by decide +kernel
    have hdecode : decode "\ufeffx <- 1 # é\r\n\tx <- 'a\nb'\r\nmean(x)".toUTF8 =
        .ok source.contents := by decide +kernel
    simp only [read, hbytes, Except.bind, hdecode]
    rfl
  have hfindings : findings = (Checker.check ⟨.empty, false⟩ source.contents).findings := by
    show (Checker.checkFile _ _ _).findings = _
    rw [Checker.checkFile, hread]
  obtain ⟨script, hscript, htest⟩ := Script.exists_read_of_test
    (show ((Script.read source.contents).toOption.any fun script =>
      (script.driftFindings .empty).map Finding.place == [⟨2, 4⟩]) = true by decide +kernel)
  obtain ⟨tokens, hscan, -⟩ := Script.exists_row_of_read hscript
  have hlone : loneReturns source.contents.toList = 0 := by decide +kernel
  obtain ⟨htokens, hshow⟩ := shows_findings hscan
  refine ⟨?_, fun finding hfinding hplaced => ?_, _, hscan, fun token htoken htrivia => ?_⟩
  · have hplace : (⟨2, 4⟩ : Position) ∈ (script.driftFindings .empty).map Finding.place := by
      rw [beq_iff_eq.mp htest]
      exact List.mem_singleton_self _
    obtain ⟨finding, hfinding, hplace⟩ := List.mem_map.mp hplace
    exact ⟨finding, hfindings ▸ Checker.mem_findings_of_drift hscript hfinding, hplace⟩
  · obtain ⟨_, _, _, _, before, hstands, hcan⟩ :=
      hshow _ tree ⟨"a.R"⟩ hread finding hfinding hplaced
    exact hcan (Nat.le_zero.mp (hlone ▸ hstands.loneReturns_le))
  · obtain ⟨before, hstands, -, -, hcan⟩ := htokens token htoken htrivia
    exact hcan (Nat.le_zero.mp (hlone ▸ hstands.loneReturns_le))

/-- A carriage return that stands alone ends a line for the scanner, and none for the file: what
stands behind it has a line number that the file does not have. -/
theorem returns_hide_lines :
    let source : SourceFile := ⟨⟨"e.R"⟩, "x <- 1\rx <- \"a\""⟩
    let finding : Finding :=
      ⟨.warning, "variable reassigned with different type: was integer, now character", ⟨2, 3⟩, "x"⟩
    finding ∈ (Checker.check ⟨.empty, false⟩ source.contents).findings ∧
      source.line? 2 = none ∧ ¬ source.CanShow finding ∧
      ∃ tokens, Token.scan source.contents = .ok tokens ∧
        ∃ token ∈ tokens, token.isTrivia = false ∧ token.span.start = ⟨2, 1⟩ ∧
          ¬ source.ShowsAt token.span.start token.text.toList := by
  intro source finding
  have hline : source.line? 2 = none := by decide +kernel
  obtain ⟨script, hscript, htest⟩ := Script.exists_read_of_test
    (show ((Script.read source.contents).toOption.any fun script =>
      script.driftFindings .empty == [finding]) = true by decide +kernel)
  refine ⟨Checker.mem_findings_of_drift hscript ?_, hline, ?_, _,
    show _ = Except.ok ((Token.scan source.contents).toOption.getD []) by decide +kernel,
    ⟨⟨.identifier, "x"⟩, ⟨⟨2, 1⟩, ⟨2, 1⟩⟩⟩, by decide +kernel, rfl, rfl, ?_⟩
  · rw [beq_iff_eq.mp htest]
    exact List.mem_singleton_self _
  · rintro ⟨line, hfound, -⟩
    cases hline.symm.trans hfound
  · rintro ⟨line, hfound, -⟩
    cases hline.symm.trans hfound

end SourceFile
end TypeDrift
