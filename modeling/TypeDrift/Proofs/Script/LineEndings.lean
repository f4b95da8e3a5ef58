import TypeDrift.Proofs.Script.Faults
import TypeDrift.Proofs.Token.LineEndings

/-! # Scripts with other line endings

How the line breaks of a text are written does not change what is found in it (`Script.read_rewrite`).
The two texts have the same tokens at the same places, but for strings and names in backticks that run
over more than one line, and the parser goes by kinds.  So the texts fail alike, or are read as trees
of the same shape on the same tokens; and whatever is listed by place is found at the same places.
-/
namespace TypeDrift

namespace Expr

/-- The index of the operator, in an expression that assigns to a bare name. -/
def assignedAt? (e : Expr) : Option Nat :=
  match e.form with
  | .assign operator index left right =>
    if (operator.target left right).identifier?.isSome then some index else none
  | _ => none

/-- The index of the name of the function, in a call of a named function. -/
def calledAt? (e : Expr) : Option Nat :=
  match e.form with
  | .call callee _ =>
    match callee.form with
    | .identifier _ | .namespaced .. => some callee.range.start
    | _ => none
  | _ => none

variable (labels : Relabelling)

theorem identifier?_relabel (e : Expr) :
    (e.relabel labels).identifier? = e.identifier?.map labels.text := by
  simp only [identifier?, form_relabel]
  cases e.form <;> rfl

theorem assignedAt?_relabel (e : Expr) : (e.relabel labels).assignedAt? = e.assignedAt? := by
  simp only [assignedAt?, form_relabel]
  cases e.form with
  | assign operator index left right =>
    have htarget : operator.target (left.relabel labels) (right.relabel labels) =
        (operator.target left right).relabel labels :=
      (apply_ite (relabel labels) ..).symm
    simp only [Form.map, Form.relabel, htarget, identifier?_relabel, Option.isSome_map, id_eq]
  | _ => rfl

theorem calledAt?_relabel (e : Expr) : (e.relabel labels).calledAt? = e.calledAt? := by
  simp only [calledAt?, form_relabel]
  cases e.form with
  | call callee arguments =>
    simp only [Form.map, Form.relabel, form_relabel, start_relabel]
    cases callee.form <;> rfl
  | _ => rfl

end Expr

namespace Script

/-! ## What is listed by place -/

/-- The places of what is listed by place, which begins at a token of its own. -/
theorem map_place_listed {α : Type} (script : Script) {of : Expr → Option α} {place : α → Position}
    {at? : Expr → Option Nat}
    (h : ∀ e, (of e).map place = (at? e).map fun index => (spanAt script.tokens index).start) :
    ((script.nodes.filterMap of).mergeSort fun a b => (place a).le (place b)).map place =
      ((script.nodes.map at?).filterMap
        (Option.map fun index => (spanAt script.tokens index).start)).mergeSort Position.le := by
  rw [List.map_mergeSort (s := Position.le) fun _ _ _ _ => rfl, List.map_filterMap, funext h,
    List.filterMap_map]
  rfl

theorem places_assignments (script : Script) :
    script.assignments.map Assignment.place =
      ((script.nodes.map Expr.assignedAt?).filterMap
        (Option.map fun index => (spanAt script.tokens index).start)).mergeSort Position.le := by
  refine script.map_place_listed fun e => ?_
  cases hform : e.form with
  | assign operator index left right =>
    simp only [assignment?, Expr.assignedAt?, hform]
    cases (operator.target left right).identifier? <;> rfl
  | _ => simp only [assignment?, Expr.assignedAt?, hform, Option.map_none]

theorem places_callSites (script : Script) :
    script.callSites.map CallSite.place =
      ((script.nodes.map Expr.calledAt?).filterMap
        (Option.map fun index => (spanAt script.tokens index).start)).mergeSort Position.le := by
  refine script.map_place_listed fun e => ?_
  cases hform : e.form with
  | call callee arguments =>
    simp only [callSite?, Expr.calledAt?, hform]
    cases callee.form <;> rfl
  | _ => simp only [callSite?, Expr.calledAt?, hform, Option.map_none]

/-! ## The same lines -/

/-- Two scripts that are the same but for the texts that run over more than one line. -/
structure SameLines (script script' : Script) : Prop where
  tokens : Token.SameLines script.tokens.toList script'.tokens.toList
  expressions : script'.expressions.map (Expr.relabel .oneLine) =
    script.expressions.map (Expr.relabel .oneLine)

namespace SameLines

variable {script script' : Script} (h : SameLines script script')
include h

theorem spanAt_eq : spanAt script'.tokens = spanAt script.tokens := by
  funext index
  rw [Script.spanAt_eq, Script.spanAt_eq, ← List.getElem?_map, ← List.getElem?_map, h.tokens.spans]

/-- The expressions at any depth are the same, in the same order. -/
theorem nodes : script'.nodes.map (Expr.relabel .oneLine) =
    script.nodes.map (Expr.relabel .oneLine) := by
  have hnodes (s : Script) : s.nodes.map (Expr.relabel .oneLine) =
      Expr.preorderAll (s.expressions.map (Expr.relabel .oneLine)) := by
    rw [Script.nodes, Expr.preorderAll, Expr.preorderAll, List.map_flatMap, List.flatMap_map]
    exact List.flatMap_congr fun e _ => (e.preorder_relabel .oneLine).symm
  rw [hnodes, hnodes, h.expressions]

/-- What does not depend on the texts in an expression is the same of all of them. -/
theorem map_nodes {α : Type} {f : Expr → α} (hf : ∀ e, f (e.relabel .oneLine) = f e) :
    script'.nodes.map f = script.nodes.map f := by
  have hnodes := congrArg (List.map f) h.nodes
  rwa [List.map_map, List.map_map, show f ∘ Expr.relabel .oneLine = f from funext hf] at hnodes

theorem ranges : script'.nodes.map Expr.range = script.nodes.map Expr.range :=
  h.map_nodes (Expr.range_relabel .oneLine)

theorem spans : script'.nodes.map script'.span = script.nodes.map script.span := by
  have hspan : script'.span = script.span := by
    funext e
    rw [span, spanOf, h.spanAt_eq]
    rfl
  rw [hspan]
  exact h.map_nodes fun e => by rw [span, Expr.range_relabel, span]

theorem assignments :
    script'.assignments.map Assignment.place = script.assignments.map Assignment.place := by
  rw [places_assignments, places_assignments, h.spanAt_eq,
    h.map_nodes (Expr.assignedAt?_relabel .oneLine)]

theorem callSites : script'.callSites.map CallSite.place = script.callSites.map CallSite.place := by
  rw [places_callSites, places_callSites, h.spanAt_eq,
    h.map_nodes (Expr.calledAt?_relabel .oneLine)]

end SameLines

/-- Tokens that are the same but for such texts are read alike, or fail alike. -/
theorem ofTokens_sameLines {source source' : String} {tokens tokens' : List Token}
    (hscan : Token.scan source = .ok tokens) (hscan' : Token.scan source' = .ok tokens')
    (h : Token.SameLines tokens tokens') :
    (∃ script script', ofTokens tokens = .ok script ∧ ofTokens tokens' = .ok script' ∧
      SameLines script script') ∨
    ∃ fault fault', ofTokens tokens = .error fault ∧ ofTokens tokens' = .error fault' ∧
      fault'.message = fault.message ∧ fault'.place = fault.place := by
  have hread {source : String} {tokens : List Token} (hscan : Token.scan source = .ok tokens) :
      Expr.readAll ((tokens.map Token.toLexeme).map (Lexeme.relabel .oneLine)) =
        Expr.relabelled .oneLine (Expr.readAll (tokens.map Token.toLexeme)) := by
    obtain ⟨row, rfl, hkinds⟩ := Token.scan_row hscan
    rw [List.map_append]
    exact Expr.readAll_relabel .oneLine (List.forall_mem_map.mpr hkinds)
  have hsame : Expr.relabelled .oneLine (Expr.readAll (tokens'.map Token.toLexeme)) =
      Expr.relabelled .oneLine (Expr.readAll (tokens.map Token.toLexeme)) := by
    rw [← hread hscan', h.lexemes, hread hscan]
  unfold ofTokens
  cases hfirst : Expr.readAll (tokens.map Token.toLexeme) with
  | ok es =>
    rw [hfirst] at hsame
    cases hsecond : Expr.readAll (tokens'.map Token.toLexeme) with
    | ok es' =>
      rw [hsecond] at hsame
      exact .inl ⟨_, _, rfl, rfl, h, Except.ok.inj hsame⟩
    | error refusal' =>
      rw [hsecond] at hsame
      cases hsame
  | error refusal =>
    rw [hfirst] at hsame
    cases hsecond : Expr.readAll (tokens'.map Token.toLexeme) with
    | ok es' =>
      rw [hsecond] at hsame
      cases hsame
    | error refusal' =>
      rw [hsecond] at hsame
      obtain ⟨hindex, hfound⟩ := Refusal.mk.inj (Except.error.inj hsame)
      refine .inr ⟨_, _, rfl, rfl, ?_, ?_⟩
      · -- The refused lexeme is that of a token, whose text tells whether it is shown.
        have hlt := index_lt_of_scan hscan hfirst
        have htoken := Expr.found_of_readAll_eq_error hfirst (by simpa using hlt)
        rw [List.getElem?_map, List.getElem?_eq_getElem hlt] at htoken
        rw [← Option.some.inj htoken] at hfound
        have hdescribed := Token.described_eq_of_relabel
          (Token.multiline_of_scanFrom hscan _ (List.getElem_mem hlt)) hfound
        show "unexpected " ++ refusal'.found.described = "unexpected " ++ refusal.found.described
        rw [hdescribed, ← Option.some.inj htoken]
      · show (spanAt _ refusal'.index).start = (spanAt _ refusal.index).start
        rw [hindex, spanAt_eq, spanAt_eq, ← List.getElem?_map, ← List.getElem?_map, h.spans]

/-- **How line breaks are written does not change what is found.**  A text with line feeds alone, and
the same text with its line feeds written otherwise, are both scripts or both none.  If they are none,
they fail with the same message at the same place.  If they are, their tokens are the same at the same
places, and their expressions the same on the same tokens, but for the texts that run over more than
one line; and the assignments and the calls stand at the same places. -/
theorem read_rewrite (ending : LineEnding) {source : String} (hfree : '\r' ∉ source.toList) :
    (∃ script script', read source = .ok script ∧ read (ending.rewrite source) = .ok script' ∧
      SameLines script script' ∧
      script'.nodes.map Expr.range = script.nodes.map Expr.range ∧
      script'.nodes.map script'.span = script.nodes.map script.span ∧
      script'.assignments.map Assignment.place = script.assignments.map Assignment.place ∧
      script'.callSites.map CallSite.place = script.callSites.map CallSite.place) ∨
    ∃ fault fault', read source = .error fault ∧ read (ending.rewrite source) = .error fault' ∧
      fault'.message = fault.message ∧ fault'.place = fault.place := by
  unfold read
  rcases (Token.scan_rewrite ending hfree).cases with
    ⟨fault, hscan, hscan'⟩ | ⟨tokens, tokens', hscan, hscan', hsame⟩
  · rw [hscan, hscan']
    exact .inr ⟨fault, fault, rfl, rfl, rfl, rfl⟩
  · rw [hscan, hscan']
    refine (ofTokens_sameLines hscan hscan' hsame).imp_left ?_
    rintro ⟨script, script', hread, hread', h⟩
    exact ⟨script, script', hread, hread', h, h.ranges, h.spans, h.assignments, h.callSites⟩

/-- A string, a comment and a name in backticks at the ends of lines. -/
theorem read_rewrite_across_lines :
    ∃ script script', read "f('a\nb') # c\n`x\ny` <- 2" = .ok script ∧
      read "f('a\r\nb') # c\r\n`x\r\ny` <- 2" = .ok script' ∧ SameLines script script' ∧
      script'.assignments.map Assignment.place = script.assignments.map Assignment.place := by
  have hfree : '\r' ∉ "f('a\nb') # c\n`x\ny` <- 2".toList := by decide
  have hrewrite : LineEnding.returnFeed.rewrite "f('a\nb') # c\n`x\ny` <- 2" =
      "f('a\r\nb') # c\r\n`x\r\ny` <- 2" := by decide
  have hread := read_rewrite .returnFeed hfree
  rw [hrewrite] at hread
  rcases hread with ⟨script, script', hread, hread', hsame, -, -, hplaces, -⟩ | ⟨fault, -, hread, -⟩
  · exact ⟨script, script', hread, hread', hsame, hplaces⟩
  · have hok : (read "f('a\nb') # c\n`x\ny` <- 2").isOk = true := by decide +kernel
    rw [hread] at hok
    cases hok

end Script
end TypeDrift
