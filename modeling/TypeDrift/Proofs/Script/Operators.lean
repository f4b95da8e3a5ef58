import TypeDrift.Proofs.Expr.Spelling
import TypeDrift.Proofs.Script.Assignments
import TypeDrift.Proofs.Script.Preorder

/-! # The rows of the operators that bind names

A parse table names the rows of tokens by the kinds of the tokens alone, and so it takes every sign
that can bind a name for the operator of an assignment.  What such a sign is depends on where it
stands.  This module goes from the rows back to the tree (`assignmentOperators_roles`): every
assignment has one row among them, which hangs from the row of the assignment, and what else there is
belongs to the operator `:=`, or it names an argument or a parameter.

The table gives a token to the innermost expression around it.  That expression is the only one the
token belongs to and to none of its parts (`Expr.Laid.eq_of_owns`), and there its role is known.
-/
namespace TypeDrift

namespace Expr

variable {row : List Lexeme} {es : List Expr} {lo hi index : Nat} {a b : Expr}

/-- A token that belongs to one expression itself belongs to no other one: if it does not in any of
these expressions, it does not in all of them. -/
theorem eq_of_owns_parts (htiled : ∀ e ∈ es, e.Tiled row)
    (hordered : es.Pairwise fun a b => a.range.stop ≤ b.range.start)
    (hparts : ∀ e ∈ es, a ∈ e.preorder → b ∈ e.preorder → a = b) (ha : a ∈ preorderAll es)
    (hb : b ∈ preorderAll es) (hina : a.range.contains index = true)
    (hinb : b.range.contains index = true) : a = b := by
  obtain ⟨top, htop, ha⟩ := List.mem_flatMap.mp ha
  obtain ⟨top', htop', hb⟩ := List.mem_flatMap.mp hb
  have hin := ((htiled top htop).sub a ha).contains hina
  have hin' := ((htiled top' htop').sub b hb).contains hinb
  let Same : Expr → Expr → Prop := fun x y =>
    x.range.contains index = true → y.range.contains index = true → x = y
  have hsymm : Std.Symm Same := ⟨fun _ _ h hx hy => (h hy hx).symm⟩
  have hsame : Same top top' := by
    refine List.Pairwise.forall_of_forall (fun _ _ _ _ => rfl) (hordered.imp fun hle hx hy => ?_)
      htop htop'
    rw [TokenRange.contains_iff] at hx hy
    omega
  exact hparts top htop ha (hsame hin hin' ▸ hb)

theorem Tiled.eq_of_owns {top : Expr} (h : top.Tiled row) (ha : a ∈ top.preorder)
    (hb : b ∈ top.preorder) (howns : a.Owns index) (howns' : b.Owns index) : a = b := by
  induction top using induction_children with
  | step top ih =>
    obtain ⟨hlaid, htiled⟩ := tiled_iff.mp h
    have hpart {e : Expr} (he : e ∈ preorderAll top.children) (hin : e.range.contains index = true)
        (hnot : ∀ child ∈ top.children, child.range.contains index = false) : False := by
      obtain ⟨child, hchild, he⟩ := List.mem_flatMap.mp he
      have hin' := ((htiled child hchild).sub e he).contains hin
      rw [hnot child hchild] at hin'
      cases hin'
    rw [preorder_eq, List.mem_cons] at ha hb
    rcases ha with rfl | ha
    · rcases hb with rfl | hb
      · rfl
      · exact (hpart hb howns'.1 howns.2).elim
    · rcases hb with rfl | hb
      · exact (hpart ha howns.1 howns'.2).elim
      · exact eq_of_owns_parts htiled hlaid.ordered
          (fun child hchild ha hb => ih child hchild (htiled child hchild) ha hb) ha hb howns.1
          howns'.1

/-- **A token belongs to one expression only.** -/
theorem Laid.eq_of_owns (h : Laid row lo hi es) (ha : a ∈ preorderAll es) (hb : b ∈ preorderAll es)
    (howns : a.Owns index) (howns' : b.Owns index) : a = b :=
  eq_of_owns_parts h.tiled h.ordered
    (fun e he ha hb => (h.tiled e he).eq_of_owns ha hb howns howns') ha hb howns.1 howns'.1

end Expr

/-- The kinds that a table names as operators of assignments are the signs that can bind a name. -/
theorem Kind.isAssignment_iff_tableName {kind : Kind} :
    (kind.tableName == "LEFT_ASSIGN" || kind.tableName == "RIGHT_ASSIGN" ||
      kind.tableName == "EQ_ASSIGN") = kind.isAssignment := by
  cases kind with
  | keyword word => cases word <;> decide
  | _ => rfl

namespace Script

/-- What is said in a table of a sign that can bind a name: its token, and what this is to the
expression that the row hangs from. -/
structure SignAt (script : Script) (row : Row) (index : Nat) (token : Token) (e : Expr) : Prop where
  place : script.tokens[index]? = some token
  id : row.id = index + 1
  span : row.span = token.span
  mem : e ∈ script.nodes
  parent : row.parent = script.numberOf e
  role : e.Role script.lexemes index token.kind

variable {source : String} {script : Script}

theorem written_of_read (h : read source = .ok script) :
    ∀ e ∈ script.nodes, e.Spelled script.lexemes := by
  obtain ⟨row, -, htokens, -, hread⟩ := exists_row_of_read h
  have hlexemes : script.lexemes = row.map Token.toLexeme ++ [.endOfInput] := by
    rw [lexemes, htokens, List.map_append]
    rfl
  rw [hlexemes]
  exact List.forall_mem_flatMap.mpr (Expr.written_readAll hread)

/-- The innermost expression around a token is the one that the token belongs to. -/
theorem Innermost.owns (h : read source = .ok script) {index : Nat} {e : Expr}
    (hinnermost : script.Innermost index e) : e.Owns index := by
  refine ⟨hinnermost.contains, fun child hchild => Bool.eq_false_iff.mpr fun hin => ?_⟩
  have hlaid := laidOut_of_read h e hinnermost.mem
  have hne : child ≠ e := fun heq =>
    absurd (Expr.sizeOf_child_lt hchild) (heq ▸ Nat.lt_irrefl _)
  have hlt := hinnermost.least child (mem_nodes_of_mem_children hinnermost.mem hchild) hin hne
  have hinside := hlaid.inside child hchild
  omega

/-- A token is given to the expression that it belongs to. -/
theorem owner_of_owns (h : read source = .ok script) {index : Nat} {e : Expr}
    (he : e ∈ script.nodes) (howns : e.Owns index) :
    owner script.numbered index = script.numberOf e := by
  rcases innermost_or_outside h index with ⟨other, hinnermost, howner⟩ | ⟨-, houtside⟩
  · rw [howner, (laid_of_read h).1.eq_of_owns he hinnermost.mem howns (hinnermost.owns h)]
  · have hin := howns.1
    rw [houtside e he] at hin
    cases hin

/-- Rows have the numbers of their expressions. -/
theorem eq_of_numberOf_eq (h : read source = .ok script) {a b : Expr} (ha : a ∈ script.nodes)
    (hb : b ∈ script.nodes) (heq : script.numberOf a = script.numberOf b) : a = b := by
  rw [← labels_numbered, List.mem_map] at ha hb
  obtain ⟨node, hnode, rfl⟩ := ha
  obtain ⟨other, hother, rfl⟩ := hb
  rw [numberOf_label h hnode, numberOf_label h hother] at heq
  have hnodup : (script.numbered.map Numbered.id).Nodup := by
    rw [script.numbering.ids_eq]
    exact List.nodup_range'
  rw [List.inj_on_of_nodup_map hnodup hnode hother heq]

/-- The rows of operators are those of all signs that can bind a name, in the order of the text. -/
theorem assignmentOperators_eq (h : read source = .ok script) :
    script.table.assignmentOperators =
      (script.tokens.toList.zipIdx.filter fun token => token.1.kind.isAssignment).map fun token =>
        script.tokenRow (owner script.numbered token.2) token := by
  rw [Table.assignmentOperators, terminals_eq h, tokenRows, indexed_all, List.filter_map,
    List.filter_filter]
  congr 1
  refine List.filter_congr fun token _ => ?_
  simp only [Function.comp_apply, tokenRow, Lexeme.isTrivia]
  unfold terminalName
  split
  · next hcallee => rw [hcallee.1]; rfl
  · rw [Kind.isAssignment_iff_tableName]
    cases token.1.kind <;> rfl

theorem mem_assignmentOperators_iff (h : read source = .ok script) {row : Row} :
    row ∈ script.table.assignmentOperators ↔ ∃ index token, script.tokens[index]? = some token ∧
      token.kind.isAssignment = true ∧
      row = script.tokenRow (owner script.numbered index) (token, index) := by
  rw [assignmentOperators_eq h, List.mem_map]
  constructor
  · rintro ⟨⟨token, index⟩, hmem, rfl⟩
    obtain ⟨hmem, hkind⟩ := List.mem_filter.mp hmem
    exact ⟨index, token, Array.getElem?_toList ▸ List.mem_zipIdx_iff_getElem?.mp hmem, hkind, rfl⟩
  · rintro ⟨index, token, htoken, hkind, rfl⟩
    exact ⟨(token, index), List.mem_filter.mpr
      ⟨List.mem_zipIdx_iff_getElem?.mpr (Array.getElem?_toList ▸ htoken), hkind⟩, rfl⟩

/-- A sign that can bind a name has a role in the expression that its row hangs from. -/
theorem exists_signAt (h : read source = .ok script) {row : Row}
    (hrow : row ∈ script.table.assignmentOperators) :
    ∃ index token e, script.SignAt row index token e := by
  obtain ⟨index, token, htoken, hkind, rfl⟩ := (mem_assignmentOperators_iff h).mp hrow
  rcases innermost_or_outside h index with ⟨e, hinnermost, howner⟩ | ⟨-, houtside⟩
  · refine ⟨index, token, e, htoken, rfl, rfl, hinnermost.mem, howner, ?_⟩
    refine (written_of_read h e hinnermost.mem).roles index token.toLexeme ?_ hkind
      (hinnermost.owns h)
    rw [getElem?_lexemes, htoken]
    rfl
  · have hsemicolon : token.kind = .semicolon := by
      refine kind_of_outside h htoken ?_ ?_ fun e he => houtside e ?_
      · exact fun hnewline => by rw [hnewline] at hkind; cases hkind
      · exact fun hend => by rw [hend] at hkind; cases hkind
      · exact List.mem_flatMap.mpr ⟨e, he, Expr.preorder_eq e ▸ List.mem_cons_self⟩
    rw [hsemicolon] at hkind
    cases hkind

/-- The operator of an assignment belongs to the assignment. -/
theorem owns_place (h : read source = .ok script) {e left right : Expr} {operator : AssignOperator}
    {place : Nat} (he : e ∈ script.nodes) (hform : e.form = .assign operator place left right) :
    e.Owns place ∧ ∃ token, script.tokens[place]? = some token ∧ token.kind = operator.kind := by
  obtain ⟨top, htop, hmem⟩ := List.mem_flatMap.mp he
  obtain ⟨hafter, hbefore, lexeme, hlexeme, hkind⟩ :=
    sited_of_read h top htop e hmem operator place left right hform
  have hlaid := laidOut_of_read h e he
  have hchildren : e.children = [left, right] := by rw [Expr.children, hform]; rfl
  have hleft := hlaid.inside left (hchildren ▸ List.mem_cons_self)
  have hright := hlaid.inside right (hchildren ▸ List.mem_cons_of_mem _ List.mem_cons_self)
  have hnonempty := (laidOut_of_read h left
    (mem_nodes_of_mem_children he (hchildren ▸ List.mem_cons_self))).nonempty
  have hnonempty' := (laidOut_of_read h right
    (mem_nodes_of_mem_children he (hchildren ▸ List.mem_cons_of_mem _ List.mem_cons_self))).nonempty
  refine ⟨⟨TokenRange.contains_iff.mpr (by omega), ?_⟩, ?_⟩
  · rw [hchildren]
    refine List.forall_mem_cons.mpr ⟨TokenRange.contains_eq_false_iff.mpr (.inr hafter), ?_⟩
    exact List.forall_mem_singleton.mpr (TokenRange.contains_eq_false_iff.mpr (.inl hbefore))
  · rw [getElem?_lexemes] at hlexeme
    obtain ⟨token, htoken, rfl⟩ := Option.map_eq_some_iff.mp hlexeme
    exact ⟨token, htoken, hkind⟩

theorem AssignOperator.isAssignment_kind (operator : AssignOperator) :
    operator.kind.isAssignment = true := by cases operator <;> rfl

/-- Every assignment has one row among those of operators. -/
theorem exists_operator_row (h : read source = .ok script) {e left right : Expr}
    {operator : AssignOperator} {place : Nat} (he : e ∈ script.nodes)
    (hform : e.form = .assign operator place left right) :
    ∃ row ∈ script.table.assignmentOperators, row.id = place + 1 ∧
      row.span = spanAt script.tokens place ∧ row.parent = script.numberOf e ∧
      ∀ other ∈ script.table.assignmentOperators, other.parent = script.numberOf e →
        other = row := by
  obtain ⟨howns, token, htoken, hkind⟩ := owns_place h he hform
  have hassign : token.kind.isAssignment = true :=
    hkind ▸ AssignOperator.isAssignment_kind operator
  refine ⟨_, (mem_assignmentOperators_iff h).mpr ⟨place, token, htoken, hassign, rfl⟩, rfl,
    (spanAt_eq_span htoken).symm, owner_of_owns h he howns, fun other hother hparent => ?_⟩
  obtain ⟨index, token', e', hsign⟩ := exists_signAt h hother
  have hsame := eq_of_numberOf_eq h hsign.mem he (hsign.parent.symm.trans hparent)
  subst hsame
  obtain ⟨index', token'', htoken'', -, rfl⟩ := (mem_assignmentOperators_iff h).mp hother
  have hindex : index' = index := Nat.succ.inj hsign.id
  subst hindex
  -- In an assignment a sign has no other role than that of its operator.
  have hplace : index' = place := by
    cases hsign.role with
    | assigns hform' =>
      rw [hform] at hform'
      cases hform'
      rfl
    | defines hform' => rw [hform] at hform'; cases hform'
    | names hname =>
      rw [hform] at hname
      cases hname
  subst hplace
  cases Option.some.inj (htoken''.symm.trans htoken)
  rfl

/-- **The rows of operators, by what they are.**  They are the rows of all signs that can bind a name,
in the order of the text.  Each assignment has one of them, at the place of its operator and below its
own row.  Every other one belongs to the operator `:=`, or it is the `=` behind the name of an argument
or a parameter. -/
theorem assignmentOperators_roles (h : read source = .ok script) :
    (script.table.assignmentOperators.map fun row => (row.id, row.text, row.span)) =
        ((script.tokens.toList.zipIdx.filter fun token => token.1.kind.isAssignment).map fun token =>
          (token.2 + 1, token.1.text, token.1.span)) ∧
      (∀ e ∈ script.nodes, ∀ operator place left right,
        e.form = .assign operator place left right →
        ∃ row ∈ script.table.assignmentOperators, row.id = place + 1 ∧
          row.span = spanAt script.tokens place ∧ row.parent = script.numberOf e ∧
          ∀ other ∈ script.table.assignmentOperators, other.parent = script.numberOf e →
            other = row) ∧
      ∀ row ∈ script.table.assignmentOperators, ∃ index token e, script.SignAt row index token e := by
  refine ⟨?_, fun e he operator place left right => exists_operator_row h he,
    fun row => exists_signAt h⟩
  rw [assignmentOperators_eq h, List.map_map]
  rfl

/-- Signs in all their roles, in defaults, arguments and chains. -/
theorem assignmentOperators_roles_nested :
    ∃ script, read "f <- function(x,\n y = (a = 1)) g(b :=\n x, `c`\n = 2 -> d, NULL = e <<- 3)" =
        .ok script ∧
      ∀ row ∈ script.table.assignmentOperators, ∃ index token e,
        script.SignAt row index token e := by
  obtain ⟨script, hread⟩ := exists_read_of_isOk
    (show (read "f <- function(x,\n y = (a = 1)) g(b :=\n x, `c`\n = 2 -> d, NULL = e <<- 3)").isOk =
      true by decide +kernel)
  exact ⟨script, hread, (assignmentOperators_roles hread).2.2⟩

/-- The `=` of a named argument and that of a default have rows among those of operators, although
nothing is assigned. -/
theorem naming_signs_among_operators :
    ∃ script, read "f(a = 1, function(b = 2) b)" = .ok script ∧
      script.table.assignmentOperators.map Row.text = ["=", "="] ∧
      (∀ e ∈ script.nodes, e.form.place? = none) ∧
      ∀ token ∈ script.tokens.toList, token.kind ≠ .colonAssign := by
  obtain ⟨script, hread, htest⟩ := exists_read_of_test
    (show ((read "f(a = 1, function(b = 2) b)").toOption.any fun script =>
      (((script.tokens.toList.zipIdx.filter fun token => token.1.kind.isAssignment).map
        fun token => token.1.text) == ["=", "="]) &&
      script.nodes.all (fun e => e.form.place?.isNone) &&
      script.tokens.toList.all fun token => token.kind != .colonAssign) = true by decide +kernel)
  simp only [Bool.and_eq_true, beq_iff_eq, List.all_eq_true, Option.isNone_iff_eq_none, bne_iff_ne]
    at htest
  obtain ⟨⟨htexts, hnodes⟩, hkinds⟩ := htest
  refine ⟨script, hread, ?_, hnodes, hkinds⟩
  rw [assignmentOperators_eq hread, List.map_map]
  exact htexts

end Script
end TypeDrift
