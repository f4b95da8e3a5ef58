import Mathlib.Data.List.Perm.Basic
import TypeDrift.Proofs.Expr.Nesting
import TypeDrift.Proofs.Expr.Powers

/-! # Where operators stand

An assignment remembers the index of its operator.  That the operator stands between the operands is
known only to the reader, which takes the one operand, the operator and the other operand in this
order (`Reads.sited`).

From this it follows that a walk through a tree which comes by an operator between its operands comes
by the operators in the order of the text (`Sited.places_increase`), whatever they are nested in.
-/
namespace TypeDrift

theorem AssignOperator.kind_eq_of_ofKind? {kind : Kind} {operator : AssignOperator}
    (h : ofKind? kind = some operator) : operator.kind = kind := by
  cases kind <;> cases h <;> rfl

namespace Expr

open Cursor

/-- If the expression is an assignment, its operator stands between its operands and is written with
a lexeme that binds names. -/
def OperatorBetween (row : List Lexeme) (e : Expr) : Prop :=
  ∀ operator place left right, e.form = .assign operator place left right →
    left.range.stop ≤ place ∧ place < right.range.start ∧
      ∃ lexeme ∈ row[place]?, lexeme.kind = operator.kind

/-- All operators in an expression stand between their operands. -/
def Sited (row : List Lexeme) (e : Expr) : Prop := ∀ node ∈ e.preorder, node.OperatorBetween row

variable {row : List Lexeme}

theorem sited_iff {e : Expr} :
    e.Sited row ↔ e.OperatorBetween row ∧ ∀ child ∈ e.children, child.Sited row :=
  forall_mem_preorder_iff

theorem operatorBetween_of_place?_eq_none {e : Expr} (h : e.form.place? = none) :
    e.OperatorBetween row := by
  intro operator place left right hform
  rw [hform] at h
  cases h

theorem sited_close {c : Cursor} {start : Nat} {form : Form Expr} (hplace : form.place? = none)
    (hchildren : ∀ child ∈ form.children, child.Sited row) : (c.close start form).Sited row :=
  sited_iff.mpr ⟨operatorBetween_of_place?_eq_none hplace, hchildren⟩

/-- An operator that is read between two operands stands between them. -/
theorem sited_close_between {c : Cursor} {start : Nat} {operator : Lexeme} {place : Nat}
    {left right : Expr} (hleft : left.Sited row) (hright : right.Sited row)
    (hoperator : row[place]? = some operator) (hafter : left.range.stop ≤ place)
    (hbefore : place < right.range.start) :
    (c.close start (.between operator place left right)).Sited row := by
  refine sited_iff.mpr ⟨?_, ?_⟩
  · intro binding place' left' right' hform
    replace hform : Form.between operator place left right = .assign binding place' left' right' :=
      hform
    unfold Form.between at hform
    split at hform
    · next hkind =>
      cases hform
      exact ⟨hafter, hbefore, operator, hoperator, (AssignOperator.kind_eq_of_ofKind? hkind).symm⟩
    · split at hform <;> cases hform
  · show ∀ child ∈ (Form.between operator place left right).children, child.Sited row
    rw [Form.children_between]
    exact List.forall_mem_cons.mpr ⟨hleft, List.forall_mem_singleton.mpr hright⟩

theorem sited_readName {start : Nat} {first : Lexeme} {c c' : Cursor} {e : Expr}
    (h : readName start first c = .ok (e, c')) : e.Sited row := by
  rcases readName_eq_ok_iff.mp h with ⟨-, -, -, rfl⟩ | ⟨-, name, -, -, rfl⟩
  · exact sited_close rfl (List.forall_mem_nil _)
  · exact sited_close rfl (List.forall_mem_nil _)

theorem sited_readMember {left e : Expr} {slot : Bool} {c c' : Cursor} (hleft : left.Sited row)
    (h : readMember left slot c = .ok (e, c')) : e.Sited row := by
  obtain ⟨name, -, -, rfl⟩ := readMember_eq_ok_iff.mp h
  exact sited_close rfl (List.forall_mem_singleton.mpr hleft)

/-- **The reader puts operators between their operands.** -/
theorem Reads.sited {task : Task} {c c' : Cursor} {result : task.Result}
    (h : Reads task c result c') (hc : c.In row)
    (hleft : ∀ left ∈ task.left?, left.Sited row ∧ left.range.stop ≤ c.index) :
    ∀ e ∈ task.parts result, e.Sited row := by
  have hone {e : Expr} (h : e.Sited row) : ∀ e' ∈ [e], e'.Sited row :=
    List.forall_mem_singleton.mpr h
  have htake {c : Cursor} (hc : c.In row) : c.settle.advance.In row :=
    hc.of_reaches (reaches_settle_advance c)
  have hskip {c : Cursor} (hc : c.In row) : c.skipNewlines.In row :=
    hc.of_reaches (reaches_skipNewlines c)
  -- What is closed ends with the lexeme taken last, and so before the cursor.
  have hclosed {c : Cursor} {start : Nat} {form : Form Expr} (htaken : c.Taken)
      (h : (c.close start form).Sited row) :
      ∀ left ∈ some (c.close start form), left.Sited row ∧ left.range.stop ≤ c.index := by
    rintro _ ⟨⟩
    exact ⟨h, htaken⟩
  induction h with
  | expression hfirst _ ihfirst ihmore =>
    have hread := hfirst.laysOut hc
    refine ihmore hread.behind.inRow ?_
    rintro _ ⟨⟩
    exact ⟨ihfirst hc nofun _ List.mem_cons_self, hread.stop ▸ hread.behind.last_lt⟩
  | done => exact hone (hleft _ rfl).1
  | call _ _ hgiven _ ihgiven ihmore | index _ _ hgiven _ ihgiven ihmore =>
    have hinside := htake hc
    refine ihmore (hinside.of_reaches hgiven.reaches) (hclosed (hgiven.taken (.inl rfl)) ?_)
    exact sited_close rfl (List.forall_mem_cons.mpr ⟨(hleft _ rfl).1, ihgiven hinside nofun⟩)
  | doubleIndex _ _ hgiven _ _ ihgiven ihmore =>
    have hinside := htake hc
    refine ihmore (htake (hinside.of_reaches hgiven.reaches))
      (hclosed (hgiven.taken (.inl rfl)).settle.advance ?_)
    exact sited_close rfl (List.forall_mem_cons.mpr ⟨(hleft _ rfl).1, ihgiven hinside nofun⟩)
  | member hkind _ hmember _ ihmore =>
    have htaken := taken_advance (Continuation.kind_ne_endOfInput hkind)
    have hsited := sited_readMember (hleft _ rfl).1 hmember
    have htaken' := taken_readMember htaken hmember
    refine ihmore ((htake hc).of_reaches (reaches_readMember hmember)) ?_
    obtain ⟨name, -, -, rfl⟩ := readMember_eq_ok_iff.mp hmember
    exact hclosed htaken' hsited
  | between hkind _ hright _ ihright ihmore =>
    obtain ⟨hsited, hstop⟩ := hleft _ rfl
    have hend := Continuation.kind_ne_endOfInput hkind
    have hinside := hskip (htake hc)
    have hread := hright.laysOut hinside
    refine ihmore hread.behind.inRow (hclosed (hright.taken (.inl rfl)) ?_)
    refine sited_close_between hsited (ihright hinside nofun _ List.mem_cons_self)
      ((hc.of_reaches (reaches_settle _)).getElem?_index hend)
      (Nat.le_trans hstop (reaches_settle _).index_le) ?_
    rw [hread.start]
    exact lt_index hend (Reaches.trans (reaches_skipNewlines _) (reaches_settle _))
  | leaf hopening =>
    obtain ⟨hchildren, hplace⟩ := children_leaf hopening
    refine hone (sited_close hplace ?_)
    rw [hchildren]
    exact nofun
  | name _ hname => exact hone (sited_readName hname)
  | paren _ _ _ ihinner => exact hone (sited_close rfl (ihinner (htake hc) nofun))
  | block _ _ ihbody => exact hone (sited_close rfl (ihbody (htake hc) nofun))
  | sign _ _ ihinner | tilde _ _ ihinner | repeatLoop _ _ ihinner =>
    exact hone (sited_close rfl (ihinner (hskip (htake hc)) nofun))
  | function _ _ hgiven _ ihgiven ihbody =>
    have hinside := htake (htake hc)
    exact hone (sited_close rfl (List.forall_mem_append.mpr
      ⟨ihgiven hinside nofun, ihbody (hskip (hinside.of_reaches hgiven.reaches)) nofun⟩))
  | conditional _ hcondition hconsequent _ ihcondition ihconsequent ihalternative =>
    have hbranch := (htake hc).of_reaches hcondition.reaches
    refine hone (sited_close rfl (List.forall_mem_append.mpr ⟨List.forall_mem_cons.mpr ⟨?_, ?_⟩,
      ihalternative (hbranch.of_reaches hconsequent.reaches) nofun⟩))
    · exact ihcondition (htake hc) nofun _ List.mem_cons_self
    · exact ihconsequent hbranch nofun
  | forLoop _ _ hinside _ _ hsequence _ _ ihsequence ihbody =>
    subst hinside
    have hin := htake (htake (c := enter _ .round) (htake (htake hc)))
    have hclose := hskip (c := leave _) (htake (hin.of_reaches hsequence.reaches))
    refine hone (sited_close rfl (List.forall_mem_cons.mpr ⟨?_, ihbody hclose nofun⟩))
    exact ihsequence hin nofun _ List.mem_cons_self
  | whileLoop _ hcondition _ ihcondition ihbody =>
    refine hone (sited_close rfl (List.forall_mem_cons.mpr ⟨?_, ?_⟩))
    · exact ihcondition (htake hc) nofun _ List.mem_cons_self
    · exact ihbody ((htake hc).of_reaches hcondition.reaches) nofun
  | header _ _ _ ihcondition => exact ihcondition (htake hc) nofun
  | elseBranch _ _ ihbranch =>
    have hbefore := hc.of_reaches (reaches_beforeElse _)
    exact ihbranch (hskip (hbefore.of_reaches (reaches_advance _))) nofun
  | noElse | noStatements | noArguments | noValue | noParameters | noFallback => exact nofun
  | statement _ hfirst _ _ ihfirst ihothers =>
    have hinside := hc.of_reaches (reaches_skipSeparators _)
    exact List.forall_mem_cons.mpr ⟨ihfirst hinside nofun _ List.mem_cons_self,
      ihothers (hinside.of_reaches hfirst.reaches) nofun⟩
  | someArguments _ _ ihgiven | someParameters _ _ ihgiven =>
    exact ihgiven (hc.of_reaches (reaches_settle _)) nofun
  | lastArgument _ _ ihfirst => exact forall_mem_filterMap_cons (ihfirst hc nofun) nofun
  | moreArguments hfirst _ _ ihfirst ihothers =>
    exact forall_mem_filterMap_cons (ihfirst hc nofun)
      (ihothers (htake (hc.of_reaches hfirst.reaches)) nofun)
  | namedArgument _ _ _ ihvalue => exact ihvalue (htake (htake hc)) nofun
  | plainArgument _ _ ihvalue | value _ _ ihvalue =>
    exact ihvalue (hc.of_reaches (reaches_settle _)) nofun
  | fallback _ _ ihvalue => exact ihvalue (htake hc) nofun
  | lastParameter _ _ _ ihfallback =>
    exact forall_mem_filterMap_cons (ihfallback (htake hc) nofun) nofun
  | moreParameters _ hfallback _ _ ihfallback ihothers =>
    exact forall_mem_filterMap_cons (ihfallback (htake hc) nofun)
      (ihothers (htake ((htake hc).of_reaches hfallback.reaches)) nofun)

end Expr

/-! ## The walk by operators -/

namespace Form
variable {ε : Type}

/-- The parts before the operator between two operands. -/
def leading (form : Form ε) : List ε := form.leftOperand?.toList

/-- The parts behind the operator; all parts, where there is no operator between two operands. -/
def trailing : Form ε → List ε
  | binary _ _ right | assign _ _ _ right | formula (some _) right => [right]
  | form => form.children

theorem leading_append_trailing (form : Form ε) : form.leading ++ form.trailing = form.children := by
  cases form with
  | formula left right => cases left <;> rfl
  | _ => rfl

theorem exists_assign_of_place? {form : Form ε} {place : Nat} (h : place ∈ form.place?) :
    ∃ operator left right, form = .assign operator place left right := by
  cases form with
  | assign operator place' left right =>
    cases h
    exact ⟨operator, left, right, rfl⟩
  | _ => cases h

end Form

namespace Expr

theorem infix_flatMap_of_mem {α β : Type} {l : List α} (f : α → List β) {a : α} (h : a ∈ l) :
    f a <:+: l.flatMap f := by
  obtain ⟨before, behind, rfl⟩ := List.append_of_mem h
  rw [List.flatMap_append, List.flatMap_cons, ← List.append_assoc]
  exact List.infix_append _ _ _

/-- An expression and everything in it, each between what stands before its operator and what stands
behind it. -/
def inOrder (e : Expr) : List Expr :=
  (e.form.leading.attach.flatMap fun child => child.1.inOrder) ++
    e :: e.form.trailing.attach.flatMap fun child => child.1.inOrder
termination_by sizeOf e
decreasing_by
  all_goals
    refine sizeOf_child_lt ?_
    rw [children, ← Form.leading_append_trailing]
    first | exact List.mem_append_left _ child.2 | exact List.mem_append_right _ child.2

theorem inOrder_eq (e : Expr) :
    e.inOrder = e.form.leading.flatMap inOrder ++ e :: e.form.trailing.flatMap inOrder := by
  have hattach (es : List Expr) : (es.attach.flatMap fun child => child.1.inOrder) =
      es.flatMap inOrder := by
    rw [List.flatMap_subtype (g := inOrder) fun _ _ => rfl, List.unattach_attach]
  rw [inOrder, hattach, hattach]

variable {row : List Lexeme} {e : Expr} {es : List Expr} {lo hi : Nat}

/-- The walk comes by everything in an expression once. -/
theorem inOrder_perm (e : Expr) : e.inOrder.Perm e.preorder := by
  induction e using induction_children with
  | step e ih =>
    have hall : (e.children.flatMap inOrder).Perm (preorderAll e.children) :=
      List.Perm.flatMap_left _ ih
    rw [inOrder_eq, preorder_eq]
    refine List.perm_middle.trans (List.Perm.cons e ?_)
    rwa [← List.flatMap_append, Form.leading_append_trailing]

/-- What is in an expression is walked through in one go. -/
theorem inOrder_infix {node : Expr} (hnode : node ∈ e.preorder) : node.inOrder <:+: e.inOrder := by
  induction e using induction_children with
  | step e ih =>
    rw [preorder_eq, List.mem_cons, preorderAll, List.mem_flatMap] at hnode
    rcases hnode with rfl | ⟨child, hchild, hnode⟩
    · exact List.infix_rfl
    · refine (ih child hchild hnode).trans ?_
      rw [children, ← Form.leading_append_trailing, List.mem_append] at hchild
      rw [inOrder_eq e]
      rcases hchild with hchild | hchild
      · exact (infix_flatMap_of_mem inOrder hchild).trans (List.prefix_append _ _).isInfix
      · refine (infix_flatMap_of_mem inOrder hchild).trans (List.IsSuffix.isInfix ?_)
        exact (List.suffix_cons _ _).trans (List.suffix_append _ _)

/-- The operators of the first expression stand before those of the second. -/
def OperatorsBefore (a b : Expr) : Prop := ∀ p ∈ a.form.place?, ∀ q ∈ b.form.place?, p < q

/-- An operator stands within the range of everything that it is in. -/
theorem Sited.contains_place (hsited : e.Sited row) (htiled : e.Tiled row) :
    ∀ node ∈ e.inOrder, ∀ place ∈ node.form.place?, e.range.contains place = true := by
  intro node hnode place hplace
  replace hnode := (inOrder_perm e).mem_iff.mp hnode
  refine (htiled.sub node hnode).contains (TokenRange.contains_iff.mpr ?_)
  obtain ⟨hlaid, hparts⟩ := tiled_iff.mp (htiled.of_mem_preorder hnode)
  obtain ⟨operator, left, right, hform⟩ := Form.exists_assign_of_place? hplace
  obtain ⟨hafter, hbefore, -⟩ := hsited node hnode operator place left right hform
  have hchildren : node.children = [left, right] := by rw [children, hform]; rfl
  rw [hchildren] at hparts
  have hleft := hlaid.inside left (hchildren ▸ List.mem_cons_self)
  have hright := hlaid.inside right (hchildren ▸ List.mem_cons_of_mem _ List.mem_cons_self)
  have hnonempty := (hparts left List.mem_cons_self).nonempty
  have hnonempty' := (hparts right (List.mem_cons_of_mem _ List.mem_cons_self)).nonempty
  omega

theorem operators_increase_parts (hsited : ∀ e ∈ es, e.Sited row) (htiled : ∀ e ∈ es, e.Tiled row)
    (hordered : es.Pairwise fun a b => a.range.stop ≤ b.range.start)
    (hparts : ∀ e ∈ es, e.inOrder.Pairwise OperatorsBefore) :
    (es.flatMap inOrder).Pairwise OperatorsBefore := by
  refine List.pairwise_flatMap.mpr ⟨hparts, List.Pairwise.imp_of_mem ?_ hordered⟩
  intro a b ha hb hle x hx y hy p hp q hq
  have hp' := TokenRange.contains_iff.mp ((hsited a ha).contains_place (htiled a ha) x hx p hp)
  have hq' := TokenRange.contains_iff.mp ((hsited b hb).contains_place (htiled b hb) y hy q hq)
  omega

/-- **The walk comes by the operators in the order of the text.** -/
theorem Sited.operators_increase (hsited : e.Sited row) (htiled : e.Tiled row) :
    e.inOrder.Pairwise OperatorsBefore := by
  induction e using induction_children with
  | step e ih =>
    obtain ⟨hbetween, hsited'⟩ := sited_iff.mp hsited
    obtain ⟨hlaid, htiled'⟩ := tiled_iff.mp htiled
    have hparts := operators_increase_parts hsited' htiled' hlaid.ordered fun child hchild =>
      ih child hchild (hsited' child hchild) (htiled' child hchild)
    rw [children, ← Form.leading_append_trailing, List.flatMap_append,
      List.pairwise_append] at hparts
    obtain ⟨hleading, htrailing, hcross⟩ := hparts
    rw [inOrder_eq, List.pairwise_append, List.pairwise_cons]
    refine ⟨hleading, ⟨?_, htrailing⟩, fun x hx => List.forall_mem_cons.mpr ⟨?_, hcross x hx⟩⟩
    · intro y hy place hplace q hq
      obtain ⟨operator, left, right, hform⟩ := Form.exists_assign_of_place? hplace
      obtain ⟨-, hbefore, -⟩ := hbetween operator place left right hform
      have hright : right ∈ e.children := by
        rw [children, hform]
        exact List.mem_cons_of_mem _ List.mem_cons_self
      rw [hform] at hy
      replace hy : y ∈ right.inOrder := by simpa [Form.trailing] using hy
      have hin := (hsited' right hright).contains_place (htiled' right hright) y hy q hq
      rw [TokenRange.contains_iff] at hin
      omega
    · intro q hq place hplace
      obtain ⟨operator, left, right, hform⟩ := Form.exists_assign_of_place? hplace
      obtain ⟨hafter, -⟩ := hbetween operator place left right hform
      have hleft : left ∈ e.children := by rw [children, hform]; exact List.mem_cons_self
      rw [hform] at hx
      replace hx : x ∈ left.inOrder := by simpa [Form.leading, Form.leftOperand?] using hx
      have hin := (hsited' left hleft).contains_place (htiled' left hleft) x hx q hq
      rw [TokenRange.contains_iff] at hin
      omega

/-- The same of expressions one behind the other. -/
theorem Laid.operators_increase (h : Laid row lo hi es) (hsited : ∀ e ∈ es, e.Sited row) :
    (es.flatMap inOrder).Pairwise OperatorsBefore :=
  operators_increase_parts hsited h.tiled h.ordered fun e he =>
    (hsited e he).operators_increase (h.tiled e he)

/-- What is read off a row has its operators between their operands. -/
theorem sited_readAll {lexemes : List Lexeme} (h : readAll lexemes = .ok es) :
    ∀ e ∈ es, e.Sited lexemes := by
  obtain ⟨c, hreads⟩ := readAll_eq_ok_iff.mp h
  exact hreads.sited (Cursor.in_ofLexemes lexemes) nofun

end Expr
end TypeDrift
