import TypeDrift.Proofs.Script.Assignments
import TypeDrift.Proofs.Token.Alone

/-! # Expressions on one line

The value of an assignment is displayed on one line, as the lexemes of its tokens with blanks
between them.  Nothing is lost that way (`scan_displayed`): the line is scanned as the tokens that it
was made of, whatever stood between them, and so is any other row of tokens of a text.
-/
namespace TypeDrift
namespace Script

theorem tokensOf_subset (script : Script) (range : TokenRange) :
    script.tokensOf range ⊆ script.tokens.toList := by
  rw [tokensOf_eq]
  exact fun token htoken => List.mem_of_mem_take (List.mem_of_mem_drop htoken)

/-- What is listed displays the value that it holds, which is an expression of the script. -/
theorem displayed_of_mem_assignments {script : Script} {assignment : Assignment}
    (h : assignment ∈ script.assignments) :
    assignment.value ∈ script.nodes ∧ assignment.text = script.text assignment.value := by
  obtain ⟨e, he, hrecord⟩ := List.mem_filterMap.mp (List.mem_mergeSort.mp h)
  unfold assignment? at hrecord
  split at hrecord
  · next operator index left right hform =>
    obtain ⟨name, -, rfl⟩ := Option.map_eq_some_iff.mp hrecord
    refine ⟨mem_nodes_of_mem_children he ?_, rfl⟩
    have hchildren : e.children = [left, right] := by rw [Expr.children, hform]; rfl
    rw [hchildren]
    cases hside : operator.isRightward <;> simp [AssignOperator.value, hside]
  · cases hrecord

/-- **No token is lost on one line.**  Take any of the tokens of a text that are neither line breaks
nor its end: all of them, some that stand one behind the other, or one.  Their lexemes with single
blanks between them are scanned as the same kinds, contents and lexemes, and the end of input behind
them.  So the text that is displayed for an assignment is scanned as the tokens of its value without
the line breaks. -/
theorem scan_displayed {source : String} {tokens : List Token} (h : Token.scan source = .ok tokens) :
    (∀ run ⊆ tokens.filter fun token => !token.isTrivia,
      ∃ again, Token.scan (String.intercalate " " (run.map fun token => token.text)) = .ok again ∧
        again.map Token.toLexeme = run.map Token.toLexeme ++ [.endOfInput]) ∧
    ∀ script, read source = .ok script → ∀ assignment ∈ script.assignments,
      ∃ again, Token.scan assignment.text = .ok again ∧
        again.map Token.toLexeme =
          (((script.tokensOf assignment.value.range).filter
            fun token => token.kind ≠ .newline).map Token.toLexeme) ++ [.endOfInput] := by
  refine ⟨fun run hrun => Token.exists_scan_intercalate h hrun, ?_⟩
  intro script hread assignment hassignment
  obtain ⟨hvalue, htext⟩ := displayed_of_mem_assignments hassignment
  obtain ⟨row, hscan, htokens, -⟩ := exists_row_of_read hread
  have hsubset : script.tokensOf assignment.value.range ⊆
      row ++ [Token.endAt (.behind source.toList)] := by
    simpa [htokens] using script.tokensOf_subset assignment.value.range
  rw [htext, text_eq_of_mem_nodes hread hvalue, ← filter_tokensOf hread hvalue]
  exact Token.exists_scan_intercalate hscan (List.filter_subset _ hsubset)

/-- Two lines with a note, and a raw string with a line break of its own. -/
theorem scan_displayed_two_lines :
    ∃ script assignment again,
      read "x <- c(.5L,0xFi # note\n,r'-(a\r\nb)-'%in%`y z`)" = .ok script ∧
      script.assignments = [assignment] ∧
      assignment.text = "c ( .5L , 0xFi , r'-(a\r\nb)-' %in% `y z` )" ∧
      Token.scan assignment.text = .ok again ∧
      again.map Token.toLexeme =
        (((script.tokensOf assignment.value.range).filter
          fun token => token.kind ≠ .newline).map Token.toLexeme) ++ [.endOfInput] := by
  have htest : ((read "x <- c(.5L,0xFi # note\n,r'-(a\r\nb)-'%in%`y z`)").toOption.any fun script =>
      script.assignments.map Assignment.text = ["c ( .5L , 0xFi , r'-(a\r\nb)-' %in% `y z` )"]) =
      true := by decide +kernel
  obtain ⟨script, hread, htest⟩ := exists_read_of_test htest
  obtain ⟨row, hscan, -⟩ := exists_row_of_read hread
  obtain ⟨assignment, hassignments, htext⟩ := List.map_eq_singleton_iff.mp (of_decide_eq_true htest)
  obtain ⟨again, hagain, hlexemes⟩ := (scan_displayed hscan).2 script hread assignment
    (hassignments ▸ List.mem_singleton_self _)
  exact ⟨script, assignment, again, hread, hassignments, htext, hagain, hlexemes⟩

end Script
end TypeDrift
