import Mathlib.Data.List.Nodup
import TypeDrift.Proofs.Expr.Operators
import TypeDrift.Proofs.Script.Respaced

/-! # Assignments in the order of the tree

The assignments of a script are collected in one order, each before those in its parts, and then
sorted by the places of their operators.  This module shows what the sorting comes to
(`assignments_in_order`): the assignments are listed as a walk through the tree comes by their
operators, with what is left of an operator before it and what is right of it behind.  The walk comes
by operators in the order of the text, and no two of them stand at one place; so the sorted list
cannot be any other.
-/
namespace TypeDrift

theorem Position.le_antisymm {p q : Position} (h : p.le q = true) (h' : q.le p = true) : p = q := by
  rw [le_iff] at h h'
  have heq : p.line = q.line ∧ p.column = q.column := by omega
  cases p
  cases q
  exact Position.mk.injEq .. ▸ heq

/-- The expression assigns to a bare name. -/
def Expr.bindsName (e : Expr) : Bool :=
  match e.form with
  | .assign operator _ left right => (operator.target left right).identifier?.isSome
  | _ => false

namespace Script

/-- All expressions of a script, each between what stands before its operator and what stands
behind it. -/
def inOrder (script : Script) : List Expr := script.expressions.flatMap Expr.inOrder

/-- What an assignment says of the operator with this index and of its operands. -/
structure RecordedAt (script : Script) (e : Expr) (record : Assignment) (index : Nat)
    (left right : Expr) : Prop where
  form : e.form = .assign record.operator index left right
  between : left.range.stop ≤ index ∧ index < right.range.start
  place : ∃ token, script.tokens[index]? = some token ∧ token.kind = record.operator.kind ∧
    record.place = token.span.start
  leftward : record.operator.isRightward = false →
    left.form = .identifier record.name ∧ record.value = right
  rightward : record.operator.isRightward = true →
    right.form = .identifier record.name ∧ record.value = left
  text : record.text = String.intercalate " "
    (((script.tokensOf record.value.range).filter fun token => token.kind ≠ .newline).map
      fun token => token.text)

/-- An assignment is the record of an expression. -/
def Records (script : Script) (e : Expr) (record : Assignment) : Prop :=
  ∃ index left right, script.RecordedAt e record index left right

variable {source : String} {script : Script}

theorem inOrder_perm (script : Script) : script.inOrder.Perm script.nodes :=
  List.Perm.flatMap_left _ fun e _ => e.inOrder_perm

theorem inOrder_infix {e : Expr} (he : e ∈ script.nodes) : e.inOrder <:+: script.inOrder := by
  obtain ⟨top, htop, he⟩ := List.mem_flatMap.mp he
  exact (Expr.inOrder_infix he).trans (Expr.infix_flatMap_of_mem Expr.inOrder htop)

theorem sited_of_read (h : read source = .ok script) :
    ∀ e ∈ script.expressions, e.Sited script.lexemes := by
  obtain ⟨row, -, htokens, -, hread⟩ := exists_row_of_read h
  have hlexemes : script.lexemes = row.map Token.toLexeme ++ [.endOfInput] := by
    rw [lexemes, htokens, List.map_append]
    rfl
  rw [hlexemes]
  exact Expr.sited_readAll hread

/-- Of the tokens of an expression only the line breaks are not written out. -/
theorem filter_tokensOf (h : read source = .ok script) {e : Expr} (he : e ∈ script.nodes) :
    ((script.tokensOf e.range).filter fun token => !token.isTrivia) =
      (script.tokensOf e.range).filter fun token => token.kind ≠ .newline := by
  obtain ⟨row, -, htokens, hrow, -⟩ := exists_row_of_read h
  have hstop := ((sound_of_read h).inside_of_mem he e (Expr.preorder_eq e ▸ List.mem_cons_self)).stop
  have hsize : script.tokens.size - 1 = row.length := by simp [htokens]
  refine List.filter_congr fun token htoken => ?_
  have hmem : token ∈ row := by
    rw [tokensOf_eq, htokens] at htoken
    have htake := List.mem_of_mem_drop htoken
    rw [List.take_append_of_le_length (hsize ▸ hstop)] at htake
    exact List.mem_of_mem_take htake
  have hend : token.kind ≠ .endOfInput := hrow _ (List.mem_map_of_mem hmem)
  rw [Bool.eq_iff_iff, Bool.not_eq_true', Lexeme.isTrivia, Kind.isTrivia_eq_false_iff,
    decide_eq_true_iff]
  exact ⟨And.left, fun hnewline => ⟨hnewline, hend⟩⟩

theorem text_eq_of_mem_nodes (h : read source = .ok script) {e : Expr} (he : e ∈ script.nodes) :
    script.text e = String.intercalate " "
      (((script.tokensOf e.range).filter fun token => token.kind ≠ .newline).map
        fun token => token.text) := by
  rw [text, filter_tokensOf h he]

theorem mem_nodes_of_mem_children {e child : Expr} (he : e ∈ script.nodes)
    (hchild : child ∈ e.children) : child ∈ script.nodes := by
  obtain ⟨top, htop, he⟩ := List.mem_flatMap.mp he
  refine List.mem_flatMap.mpr ⟨top, htop, Expr.mem_preorder_trans ?_ he⟩
  rw [Expr.preorder_eq]
  refine List.mem_cons_of_mem _ (List.mem_flatMap.mpr ⟨child, hchild, ?_⟩)
  exact Expr.preorder_eq child ▸ List.mem_cons_self

theorem assignment?_eq_none {e : Expr} (h : e.bindsName = false) : script.assignment? e = none := by
  cases hform : e.form with
  | assign operator index left right =>
    simp only [Expr.bindsName, hform] at h
    simp only [assignment?, hform, Option.not_isSome_iff_eq_none.mp (Bool.eq_false_iff.mp h),
      Option.map_none]
  | _ => simp only [assignment?, hform]

theorem Expr.form_of_identifier? {e : Expr} {name : String} (h : e.identifier? = some name) :
    e.form = .identifier name := by
  unfold Expr.identifier? at h
  split at h
  · next hform => rw [hform, Option.some.inj h]
  · cases h

theorem assignment?_of_target {e left right : Expr} {operator : AssignOperator} {index : Nat}
    {name : String} (hform : e.form = .assign operator index left right)
    (htarget : (operator.target left right).form = .identifier name) :
    script.assignment? e = some
      { name := name
        place := (spanAt script.tokens index).start
        operator := operator
        text := script.text (operator.value left right)
        value := operator.value left right } := by
  simp only [assignment?, hform, Expr.identifier?, htarget, Option.map_some]

/-- An expression that assigns to a bare name is listed. -/
theorem exists_record (h : read source = .ok script) {e : Expr} (he : e ∈ script.nodes)
    (hbinds : e.bindsName = true) :
    ∃ record, script.assignment? e = some record ∧ script.Records e record := by
  obtain ⟨top, htop, hmem⟩ := List.mem_flatMap.mp he
  unfold Expr.bindsName at hbinds
  split at hbinds
  · next operator index left right hform =>
    obtain ⟨name, hname⟩ := Option.isSome_iff_exists.mp hbinds
    have hname' := Expr.form_of_identifier? hname
    obtain ⟨hafter, hbefore, lexeme, hlexeme, hkind⟩ :=
      sited_of_read h top htop e hmem operator index left right hform
    rw [getElem?_lexemes] at hlexeme
    obtain ⟨token, htoken, rfl⟩ := Option.map_eq_some_iff.mp hlexeme
    have hchildren : e.children = [left, right] := by rw [Expr.children, hform]; rfl
    refine ⟨_, assignment?_of_target hform hname', index, left, right, hform, ⟨hafter, hbefore⟩,
      ⟨token, htoken, hkind, ?_⟩, ?_, ?_, text_eq_of_mem_nodes h ?_⟩
    · show (spanAt script.tokens index).start = token.span.start
      rw [spanAt_eq_span htoken]
    · intro hside
      rw [AssignOperator.target, hside] at hname'
      exact ⟨hname', by rw [AssignOperator.value, hside]; rfl⟩
    · intro hside
      rw [AssignOperator.target, hside] at hname'
      exact ⟨hname', by rw [AssignOperator.value, hside]; rfl⟩
    · refine mem_nodes_of_mem_children he ?_
      rw [hchildren]
      show operator.value left right ∈ [left, right]
      unfold AssignOperator.value
      split
      · exact List.mem_cons_self
      · exact List.mem_cons_of_mem _ List.mem_cons_self
  · cases hbinds

/-- The walk comes by the assignments in the order of their places. -/
theorem places_increase (h : read source = .ok script) :
    (script.inOrder.filterMap script.assignment?).Pairwise fun a b => a.place.Before b.place := by
  have hsound := sound_of_read h
  refine List.Pairwise.filterMap _ ?_ (List.Pairwise.and_mem.mp
    ((laid_of_read h).1.operators_increase (sited_of_read h)))
  rintro a b ⟨-, hb, hbefore⟩ record hrecord record' hrecord'
  obtain ⟨i, hi, hplace⟩ := place_assignment? hrecord
  obtain ⟨j, hj, hplace'⟩ := place_assignment? hrecord'
  have hb' := hsound.inside_of_mem (script.inOrder_perm.mem_iff.mp hb) b
    (Expr.preorder_eq b ▸ List.mem_cons_self)
  rw [hplace, hplace']
  exact start_before_start hsound.ordered (hbefore i hi j hj)
    (Nat.lt_of_lt_of_le (hb'.place j hj) (Nat.sub_le _ _))

/-- Sorted by place, the assignments are those that the walk comes by. -/
theorem assignments_eq (h : read source = .ok script) :
    script.assignments = script.inOrder.filterMap script.assignment? := by
  have hplaces := places_increase h
  have hperm : script.assignments.Perm (script.inOrder.filterMap script.assignment?) :=
    (List.mergeSort_perm ..).trans (script.inOrder_perm.filterMap _).symm
  have hsorted : script.assignments.Pairwise fun a b => a.place.le b.place = true := by
    refine List.pairwise_mergeSort ?_ ?_ _
    · exact fun _ _ _ => Position.le_trans
    · exact fun _ _ => Position.le_total _ _
  refine hperm.eq_of_pairwise ?_ hsorted (hplaces.imp ?_)
  · intro a b ha hb hab hba
    have hnodup : ((script.inOrder.filterMap script.assignment?).map Assignment.place).Nodup := by
      refine List.pairwise_map.mpr (hplaces.imp ?_)
      intro a b hbefore heq
      rw [heq] at hbefore
      simp [Position.Before] at hbefore
    exact List.inj_on_of_nodup_map hnodup (hperm.mem_iff.mp ha) hb (Position.le_antisymm hab hba)
  · intro a b hbefore
    rw [Position.le_iff]
    simp only [Position.Before] at hbefore
    omega

/-- What is listed for those of which something holds, one by one. -/
theorem forall₂_filter_filterMap {α β : Type} {p : α → Bool} {f : α → Option β} {R : α → β → Prop}
    {l : List α} (hnone : ∀ a ∈ l, p a = false → f a = none)
    (hsome : ∀ a ∈ l, p a = true → ∃ b, f a = some b ∧ R a b) :
    List.Forall₂ R (l.filter p) (l.filterMap f) := by
  induction l with
  | nil => exact .nil
  | cons a l ih =>
    obtain ⟨hnone, hnone'⟩ := List.forall_mem_cons.mp hnone
    obtain ⟨hsome, hsome'⟩ := List.forall_mem_cons.mp hsome
    cases hp : p a with
    | false =>
      rw [List.filter_cons_of_neg (Bool.eq_false_iff.mp hp), List.filterMap_cons_none (hnone hp)]
      exact ih hnone' hsome'
    | true =>
      obtain ⟨b, hb, hab⟩ := hsome hp
      rw [List.filter_cons_of_pos hp, List.filterMap_cons_some hb]
      exact .cons hab (ih hnone' hsome')

/-- **The assignments of a script are listed in the order of its tree**: one record for each
expression that assigns to a bare name, at any depth, and none for anything else; their operators
stand at increasing places. -/
theorem assignments_in_order (h : read source = .ok script) :
    script.inOrder.Perm script.nodes ∧
      List.Forall₂ script.Records (script.inOrder.filter Expr.bindsName) script.assignments ∧
      script.assignments.Pairwise fun a b => a.place.Before b.place := by
  have hrecords := forall₂_filter_filterMap (R := script.Records) (l := script.inOrder)
    (fun e _ hbinds => assignment?_eq_none hbinds)
    (fun e he hbinds => exists_record h (script.inOrder_perm.mem_iff.mp he) hbinds)
  rw [assignments_eq h]
  exact ⟨script.inOrder_perm, hrecords, places_increase h⟩

/-- Assignments in a default, in arguments, in a chain to both sides and in the target of another
one. -/
theorem assignments_in_order_nested :
    ∃ script, read "f <- function(x = (d <- 1)) 2 -> a ->> b; names(y <- z)[i = (j = 2)] <- k" =
        .ok script ∧
      script.inOrder.Perm script.nodes ∧
      List.Forall₂ script.Records (script.inOrder.filter Expr.bindsName) script.assignments ∧
      script.assignments.Pairwise fun a b => a.place.Before b.place := by
  obtain ⟨script, hread⟩ := exists_read_of_isOk
    (show (read "f <- function(x = (d <- 1)) 2 -> a ->> b; names(y <- z)[i = (j = 2)] <- k").isOk =
      true by decide +kernel)
  exact ⟨script, hread, assignments_in_order hread⟩

end Script
end TypeDrift
