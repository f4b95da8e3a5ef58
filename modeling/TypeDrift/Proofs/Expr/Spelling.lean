import TypeDrift.Proofs.Expr.Nesting

/-! # What the lexemes of an expression are to it

An expression is written with the lexemes in its range that stand in none of its parts.  For two
kinds of lexeme this module says what they are to the expression they belong to (`Reads.written`): a
name is written at the end of its range, and a sign that can bind a name is the operator of an
assignment, the operator `:=`, or the `=` behind the name of an argument or a parameter (`Expr.Role`).

What the reader comes by between two indices, besides the expressions it reads, is collected in
`Passes`, which is put together as the steps of the reader are.
-/
namespace TypeDrift

/-- The lexeme with this index stands behind a name, with nothing but line breaks in between. -/
def NameBefore (row : List Lexeme) (name : String) (index : Nat) : Prop :=
  ∃ place < index, (∃ lexeme ∈ row[place]?, Expr.argumentName? lexeme = some name) ∧
    ∀ between, place < between → between < index → BreakAt row between

/-- The names that a form gives: those of arguments, and those of parameters. -/
def Form.names {ε : Type} : Form ε → List String
  | call _ given | index _ given _ => given.filterMap Argument.name
  | function given _ => given.map Parameter.name
  | _ => []

namespace Expr

/-- The lexeme with this index belongs to the expression itself and to none of its parts. -/
def Owns (e : Expr) (index : Nat) : Prop :=
  e.range.contains index = true ∧ ∀ child ∈ e.children, child.range.contains index = false

/-- What a sign that can bind a name is to the expression it belongs to. -/
inductive Role (row : List Lexeme) (e : Expr) (index : Nat) (kind : Kind) : Prop
  | assigns {operator : AssignOperator} {left right : Expr}
      (hform : e.form = .assign operator index left right)
  /-- It is `:=`, which binds no name by itself. -/
  | defines {text : String} {left right : Expr} (hform : e.form = .binary (.special text) left right)
      (hkind : kind = .colonAssign)
  | names {name : String} (hname : name ∈ e.form.names) (hkind : kind = .equalAssign)
      (hbefore : NameBefore row name index)

/-- A name is what the last lexeme of its range says. -/
def Named (row : List Lexeme) (e : Expr) : Prop :=
  match e.form with
  | .identifier name =>
    ∃ lexeme ∈ row[e.range.stop - 1]?, lexeme.kind = .identifier ∧ lexeme.name = name
  | .namespaced _ name _ => ∃ lexeme ∈ row[e.range.stop - 1]?, memberName? lexeme false = some name
  | _ => True

/-- What is written with the lexemes of an expression itself. -/
structure Spelled (row : List Lexeme) (e : Expr) : Prop where
  roles : ∀ index, ∀ lexeme ∈ row[index]?, lexeme.kind.isAssignment = true → e.Owns index →
    e.Role row index lexeme.kind
  named : e.Named row

/-- The same for all that is in an expression. -/
def Written (row : List Lexeme) (e : Expr) : Prop := ∀ node ∈ e.preorder, node.Spelled row

variable {row : List Lexeme}

theorem written_iff {e : Expr} :
    e.Written row ↔ e.Spelled row ∧ ∀ child ∈ e.children, child.Written row :=
  forall_mem_preorder_iff

/-! ## What the reader comes by -/

/-- No sign that can bind a name has an index from `lo` up to, and without, `hi`. -/
def Free (row : List Lexeme) (lo hi : Nat) : Prop :=
  ∀ index, lo ≤ index → index < hi → ∀ lexeme ∈ row[index]?, lexeme.kind.isAssignment = false

/-- The signs between `lo` and `hi` that can bind a name stand in these expressions, or behind these
names. -/
def Passes (row : List Lexeme) (names : List String) (es : List Expr) (lo hi : Nat) : Prop :=
  ∀ index, lo ≤ index → index < hi → ∀ lexeme ∈ row[index]?, lexeme.kind.isAssignment = true →
    (∃ e ∈ es, e.range.contains index = true) ∨
      (lexeme.kind = .equalAssign ∧ ∃ name ∈ names, NameBefore row name index)

section Passes
variable {names names' : List String} {es es' : List Expr} {lo mid hi : Nat}

theorem Free.trans (h : Free row lo mid) (h' : Free row mid hi) : Free row lo hi := by
  intro index hle hlt
  by_cases hbefore : index < mid
  · exact h index hle hbefore
  · exact h' index (Nat.le_of_not_lt hbefore) hlt

theorem Free.of_breaks (h : ∀ index, lo ≤ index → index < hi → SeparatorAt row index) :
    Free row lo hi := by
  intro index hle hlt lexeme hmem
  obtain ⟨separator, hseparator, hkind⟩ := h index hle hlt
  cases Option.mem_unique hmem hseparator
  rcases hkind with hkind | hkind <;> rw [hkind] <;> rfl

theorem Free.passes (h : Free row lo hi) : Passes row names es lo hi := by
  intro index hle hlt lexeme hmem hkind
  rw [h index hle hlt lexeme hmem] at hkind
  cases hkind

namespace Passes

theorem append (h : Passes row names es lo mid) (h' : Passes row names' es' mid hi) :
    Passes row (names ++ names') (es ++ es') lo hi := by
  intro index hle hlt lexeme hmem hkind
  by_cases hbefore : index < mid
  · refine (h index hle hbefore lexeme hmem hkind).imp ?_ (And.imp_right ?_)
    · exact fun ⟨e, he, hcontains⟩ => ⟨e, List.mem_append_left _ he, hcontains⟩
    · exact fun ⟨name, hname, hplace⟩ => ⟨name, List.mem_append_left _ hname, hplace⟩
  · refine (h' index (Nat.le_of_not_lt hbefore) hlt lexeme hmem hkind).imp ?_ (And.imp_right ?_)
    · exact fun ⟨e, he, hcontains⟩ => ⟨e, List.mem_append_right _ he, hcontains⟩
    · exact fun ⟨name, hname, hplace⟩ => ⟨name, List.mem_append_right _ hname, hplace⟩

/-- Nothing that matters comes before. -/
theorem after (h : Passes row names es mid hi) (hfree : Free row lo mid) :
    Passes row names es lo hi :=
  have hpasses : Passes row [] [] lo mid := hfree.passes
  hpasses.append h

/-- Nothing that matters comes behind. -/
theorem before (h : Passes row names es lo mid) (hfree : Free row mid hi) :
    Passes row names es lo hi := by
  have hpasses : Passes row [] [] mid hi := hfree.passes
  have happend := h.append hpasses
  rwa [List.append_nil, List.append_nil] at happend

/-- An expression and the line breaks behind it. -/
theorem of_read {e : Expr} {c : Cursor} (hbehind : c.Behind row) (hstop : e.range.stop = c.last + 1) :
    Passes row [] [e] e.range.start c.index := by
  intro index hle hlt lexeme hmem hkind
  by_cases hin : index < c.last + 1
  · exact .inl ⟨e, List.mem_singleton_self e,
      TokenRange.contains_iff.mpr ⟨hle, hstop ▸ hin⟩⟩
  · obtain ⟨_, hbreak, hnewline⟩ := hbehind.breaks index (Nat.le_of_not_lt hin) hlt
    cases Option.mem_unique hmem hbreak
    rw [hnewline] at hkind
    cases hkind

end Passes
end Passes
end Expr

namespace Cursor.In

open TypeDrift.Expr

variable {row : List Lexeme} {c : Cursor} (h : c.In row)
include h

theorem free_settle : Free row c.index c.settle.index :=
  .of_breaks fun _ hle hlt => (h.of_settle hle hlt).separatorAt

theorem free_skipNewlines : Free row c.index c.skipNewlines.index :=
  .of_breaks fun _ hle hlt => (h.of_skipNewlines hle hlt).separatorAt

theorem free_skipSeparators : Free row c.index c.skipSeparators.index :=
  .of_breaks fun _ hle hlt => h.of_skipSeparators hle hlt

theorem free_beforeElse : Free row c.index c.beforeElse.index := by
  unfold beforeElse
  split
  · exact fun index hle hlt => absurd hlt (Nat.not_lt.mpr hle)
  · exact h.free_skipNewlines

theorem free_advance (hkind : c.head.kind.isAssignment = false) :
    Free row c.index c.advance.index := by
  intro index hle hlt lexeme hmem
  by_cases hend : c.head.kind = .endOfInput
  · rw [advance_of_end hend] at hlt
    omega
  · rw [index_advance hend] at hlt
    have hindex : index = c.index := by omega
    subst hindex
    rw [h.getElem?_index hend] at hmem
    cases hmem
    exact hkind

/-- A lexeme that binds nothing is taken. -/
theorem free_take (hkind : c.settle.head.kind.isAssignment = false) :
    Free row c.index c.settle.advance.index :=
  h.free_settle.trans ((h.of_reaches (reaches_settle c)).free_advance hkind)

/-- An expression is read, with the line breaks on both sides. -/
theorem passes_read {e : Expr} {d : Cursor} (hread : ReadFrom row c.settle.index e d) :
    Passes row [] [e] c.index d.index := by
  have hpasses := Passes.of_read hread.behind hread.stop
  rw [hread.start] at hpasses
  exact hpasses.after h.free_settle

end Cursor.In

theorem Opening.isAssignment_eq_false {lexeme : Lexeme} {opening : Opening}
    (h : ofLexeme? lexeme = some opening) : lexeme.kind.isAssignment = false := by
  obtain ⟨kind, text⟩ := lexeme
  cases kind <;> first | rfl | cases h

theorem Opening.kind_of_name {lexeme : Lexeme} (h : ofLexeme? lexeme = some .name) :
    lexeme.kind = .identifier := by
  obtain ⟨kind, text⟩ := lexeme
  cases kind with
  | keyword word => cases word <;> cases h
  | _ => first | rfl | cases h

theorem Continuation.isAssignment_eq_false {kind : Kind} {step : Continuation}
    (h : ofKind? kind = some step) (hstep : ∀ level, step ≠ .between level) :
    kind.isAssignment = false := by
  cases kind <;> first | rfl | (cases h; exact absurd rfl (hstep _))

namespace Expr

open Cursor

variable {row : List Lexeme}

theorem isAssignment_of_memberName? {lexeme : Lexeme} {keywords : Bool} {name : String}
    (h : memberName? lexeme keywords = some name) : lexeme.kind.isAssignment = false := by
  obtain ⟨kind, text⟩ := lexeme
  cases kind <;> first | rfl | cases h

theorem argumentName?_of_identifier {lexeme : Lexeme} (h : lexeme.kind = .identifier) :
    argumentName? lexeme = some lexeme.name := by rw [argumentName?, h]

theorem isAssignment_of_argumentName? {lexeme : Lexeme} {name : String}
    (h : argumentName? lexeme = some name) : lexeme.kind.isAssignment = false := by
  obtain ⟨kind, text⟩ := lexeme
  cases kind <;> first | rfl | cases h

/-! ## Expressions that are closed -/

/-- What is passed on the way to the end of an expression is what its lexemes are to it. -/
theorem spelled_close {c : Cursor} {start lo : Nat} {form : Form Expr} (htaken : c.last < c.index)
    (hlo : lo ≤ start) (hpasses : Passes row form.names form.children lo c.index)
    (hnamed : (c.close start form).Named row) : (c.close start form).Spelled row := by
  refine ⟨fun index lexeme hmem hkind ⟨hcontains, hown⟩ => ?_, hnamed⟩
  obtain ⟨hstart, hstop⟩ := TokenRange.contains_iff.mp hcontains
  have hstart' : start ≤ index := hstart
  have hstop' : index < c.last + 1 := hstop
  rcases hpasses index (by omega) (by omega) lexeme hmem hkind with
    ⟨child, hchild, hcontains⟩ | ⟨hequal, name, hname, hbefore⟩
  · rw [hown child hchild] at hcontains
    cases hcontains
  · exact .names hname hequal hbefore

/-- An expression that goes on with the one before it, by a lexeme that binds nothing. -/
theorem spelled_close_after {c d : Cursor} {left : Expr} {form : Form Expr} {after : List Expr}
    (hbehind : c.Behind row) (hstop : left.range.stop = c.last + 1) (htaken : d.last < d.index)
    (hchildren : form.children = left :: after)
    (hpasses : Passes row form.names after c.index d.index)
    (hnamed : (d.close left.range.start form).Named row) :
    (d.close left.range.start form).Spelled row := by
  refine spelled_close htaken (Nat.le_refl _) ?_ hnamed
  rw [hchildren]
  exact (Passes.of_read hbehind hstop).append hpasses

theorem isAssignment_eq_colonAssign {kind : Kind} (h : kind.isAssignment = true)
    (hnone : AssignOperator.ofKind? kind = none) : kind = .colonAssign := by
  cases kind <;> simp_all [Kind.isAssignment, AssignOperator.ofKind?]

theorem named_close_between {c : Cursor} {start place : Nat} {operator : Lexeme}
    {left right : Expr} : (c.close start (.between operator place left right)).Named row := by
  cases hform : Form.between operator place left right with
  | identifier | namespaced =>
    have hchildren := Form.children_between operator place left right
    rw [hform] at hchildren
    cases hchildren
  | _ => trivial

theorem named_close_leaf {c : Cursor} {start : Nat} {lexeme : Lexeme} {form : Form Expr}
    (h : Opening.ofLexeme? lexeme = some (.leaf form)) : (c.close start form).Named row := by
  obtain ⟨kind, text⟩ := lexeme
  cases kind with
  | keyword word => cases word <;> cases h <;> trivial
  | _ => first | (cases h; trivial) | cases h

/-- An operator between two operands is what it is to their whole. -/
theorem spelled_close_between {c d : Cursor} {left right : Expr} (hbehind : c.Behind row)
    (hstop : left.range.stop = c.last + 1) (hend : c.settle.head.kind ≠ .endOfInput)
    (htaken : d.last < d.index) (hright : Passes row [] [right] c.settle.advance.index d.index) :
    (d.close left.range.start (.between c.settle.head c.settle.index left right)).Spelled row := by
  have hinside := hbehind.inRow.of_reaches (reaches_settle c)
  have hchildren := Form.children_between c.settle.head c.settle.index left right
  refine ⟨fun index lexeme hmem hkind ⟨hcontains, hown⟩ => ?_, ?_⟩
  · obtain ⟨hstart, hlt⟩ := TokenRange.contains_iff.mp hcontains
    have hlt' : index < d.last + 1 := hlt
    have hnot {e : Expr} (he : e ∈ [left, right]) : ¬ e.range.contains index = true := by
      rw [← hchildren] at he
      rw [hown e he]
      exact Bool.false_ne_true
    have hleft := ((Passes.of_read hbehind hstop).before hbehind.inRow.free_settle) index hstart
    rcases Nat.lt_trichotomy index c.settle.index with hbefore | rfl | hafter
    · rcases hleft hbefore lexeme hmem hkind with ⟨e, he, hin⟩ | ⟨-, _, hname, -⟩
      · exact absurd hin (hnot (List.mem_singleton.mp he ▸ List.mem_cons_self))
      · cases hname
    · rw [hinside.getElem?_index hend] at hmem
      cases hmem
      cases hoperator : AssignOperator.ofKind? c.settle.head.kind with
      | some operator =>
        have hform : Form.between c.settle.head c.settle.index left right =
            .assign operator c.settle.index left right := by rw [Form.between, hoperator]
        exact .assigns hform
      | none =>
        have hcolon := isAssignment_eq_colonAssign hkind hoperator
        have hform : Form.between c.settle.head c.settle.index left right =
            .binary (.special c.settle.head.text) left right := by
          rw [Form.between, hoperator, BinaryOperator.ofLexeme, hcolon]
          rfl
        exact .defines hform hcolon
    · rw [index_advance hend] at hright
      rcases hright index hafter (by omega) lexeme hmem hkind with ⟨e, he, hin⟩ | ⟨-, _, hname, -⟩
      · exact absurd hin (hnot (List.mem_cons_of_mem _ he))
      · cases hname
  · exact named_close_between

theorem written_close {c : Cursor} {start lo : Nat} {form : Form Expr} (htaken : c.last < c.index)
    (hlo : lo ≤ start) (hpasses : Passes row form.names form.children lo c.index)
    (hnamed : (c.close start form).Named row)
    (hchildren : ∀ child ∈ form.children, child.Written row) : (c.close start form).Written row :=
  written_iff.mpr ⟨spelled_close htaken hlo hpasses hnamed, hchildren⟩

/-! ## Names -/

theorem written_readName {start lo : Nat} {first : Lexeme} {c c' : Cursor} {e : Expr}
    (hbehind : c.Behind row) (hlo : lo ≤ start) (hfree : Free row lo c.index)
    (hfirst : first.kind = .identifier) (hlast : row[c.last]? = some first)
    (h : readName start first c = .ok (e, c')) : e.Written row := by
  rcases readName_eq_ok_iff.mp h with ⟨-, -, rfl, rfl⟩ | ⟨hcolons, name, hname, rfl, rfl⟩
  · exact written_close hbehind.last_lt hlo hfree.passes ⟨first, hlast, hfirst, rfl⟩ nofun
  · have hcolons' : c.head.kind.isAssignment = false := by
      rcases hcolons with hkind | hkind <;> rw [hkind] <;> rfl
    have hinside := hbehind.inRow.of_reaches (reaches_advance c)
    have hinside' := hinside.of_reaches (reaches_settle _)
    have hend := kind_ne_endOfInput_of_memberName? hname
    obtain ⟨-, htaken, hindex⟩ := hinside'.advance (isTrivia_of_memberName? hname)
    refine written_close htaken.last_lt hlo (Free.passes ?_) ⟨_, ?_, hname⟩ nofun
    · exact (hfree.trans (hbehind.inRow.free_advance hcolons')).trans
        (hinside.free_take (isAssignment_of_memberName? hname))
    · show row[c.advance.settle.advance.last + 1 - 1]? = _
      rw [Nat.add_sub_cancel, hindex]
      exact hinside'.getElem?_index hend

/-- What comes next behind a name stands behind the name. -/
theorem nameBefore_settle {c : Cursor} {name : String} (hc : c.In row)
    (hname : argumentName? c.settle.head = some name) :
    NameBefore row name c.settle.advance.settle.index := by
  have hend := kind_ne_endOfInput_of_argumentName? hname
  have hinside := hc.of_reaches (reaches_settle c)
  refine ⟨c.settle.index, lt_index hend (reaches_settle _),
    ⟨_, hinside.getElem?_index hend, hname⟩, fun between hle hlt => ?_⟩
  refine (hinside.of_reaches (reaches_advance _)).of_settle ?_ hlt
  rw [index_advance hend]
  exact hle

/-- The `=` behind a name is taken. -/
theorem passes_sign {c : Cursor} {name : String} (hc : c.In row)
    (hsign : c.settle.head.kind.isAssignment = true → c.settle.head.kind = .equalAssign)
    (hbefore : NameBefore row name c.settle.index) :
    Passes row [name] [] c.index c.settle.advance.index := by
  cases hkind : c.settle.head.kind.isAssignment with
  | false => exact (hc.free_take hkind).passes
  | true =>
    have hequal := hsign hkind
    have hend : c.settle.head.kind ≠ .endOfInput := by rw [hequal]; exact nofun
    refine Passes.after (fun index hle hlt lexeme hmem _ => .inr ?_) hc.free_settle
    have hindex : index = c.settle.index := by
      rw [index_advance hend] at hlt
      omega
    subst hindex
    rw [(hc.of_reaches (reaches_settle c)).getElem?_index hend] at hmem
    cases hmem
    exact ⟨hequal, name, List.mem_singleton_self name, hbefore⟩

/-- A name of an argument and the `=` behind it are taken. -/
theorem passes_named {c : Cursor} {name : String} (hc : c.In row)
    (hname : argumentName? c.settle.head = some name)
    (hequal : c.settle.secondKind? = some .equalAssign) :
    Passes row [name] [] c.index c.settle.advance.settle.advance.index := by
  have hinside := hc.of_reaches (reaches_settle_advance c)
  refine (passes_sign hinside (fun hkind => ?_) (nameBefore_settle hc hname)).after
    (hc.free_take (isAssignment_of_argumentName? hname))
  have hnewline : c.settle.advance.settle.head.kind ≠ .newline := fun h => by
    rw [h] at hkind
    cases hkind
  rw [settle_eq_skipNewlines hnewline]
  exact kind_of_secondKind? (kind_ne_endOfInput_of_argumentName? hname) hequal

/-! ## What is read -/

/-- The names in what a call answers with. -/
def Task.names : (task : Task) → task.Result → List String
  | arguments _, given | argumentsFrom _, given => List.filterMap Argument.name given
  | argument _, given => (Argument.name given).toList
  | parameters, given | parametersFrom, given => List.map Parameter.name given
  | _, _ => []

/-- What the lexemes are to that which a call of one of the functions reads. -/
def Task.Writes (row : List Lexeme) : (task : Task) → Cursor → task.Result → Cursor → Prop
  | expression _, _, e, _ | operand, _, e, _ => e.Written row
  | continuation _ left, c, e, _ =>
    c.Behind row → left.range.stop = c.last + 1 → left.Written row → e.Written row
  | fallback, c, value, c' => (∀ e ∈ Option.toList value, e.Written row) ∧
    ∀ name, NameBefore row name c.settle.index →
      Passes row [name] (Option.toList value) c.index c'.index
  | task, c, result, c' => (∀ e ∈ task.parts result, e.Written row) ∧
    Passes row (task.names result) (task.parts result) c.index c'.index

/-- **The lexemes of an expression are to it what its form says.** -/
theorem Reads.written {task : Task} {c c' : Cursor} {result : task.Result}
    (h : Reads task c result c') (hc : c.In row) : task.Writes row c result c' := by
  have hin {c : Cursor} (hc : c.In row) : c.settle.advance.In row :=
    hc.of_reaches (reaches_settle_advance c)
  have hskip {c : Cursor} (hc : c.In row) : c.skipNewlines.In row :=
    hc.of_reaches (reaches_skipNewlines c)
  have hopen {opening : Opening} {c : Cursor} (hc : c.In row)
      (h : Opening.ofLexeme? c.settle.head = some opening) :
      Free row c.index c.settle.advance.index := hc.free_take (Opening.isAssignment_eq_false h)
  have hgo {step : Continuation} {c : Cursor} (hc : c.In row)
      (h : Continuation.ofKind? c.settle.head.kind = some step)
      (hstep : ∀ level, step ≠ .between level) : Free row c.index c.settle.advance.index :=
    hc.free_take (Continuation.isAssignment_eq_false h hstep)
  have hkind {c : Cursor} {kind : Kind} (hc : c.In row) (h : c.settle.head.kind = kind)
      (hkind : kind.isAssignment = false) : Free row c.index c.settle.advance.index :=
    hc.free_take (h ▸ hkind)
  have hone {e : Expr} (h : e.Written row) : ∀ e' ∈ [e], e'.Written row :=
    List.forall_mem_singleton.mpr h
  have hsplit {α β : Type} (f : α → Option β) (a : α) (rest : List α) :
      (a :: rest).filterMap f = (f a).toList ++ rest.filterMap f := by
    simp only [List.filterMap_eq_flatMap_toList, List.flatMap_cons]
  induction h with
  | expression hfirst _ ihfirst ihmore =>
    have hread := hfirst.laysOut hc
    exact ihmore hread.behind.inRow hread.behind hread.stop (ihfirst hc)
  | done => exact fun _ _ hleft => hleft
  | call hstep _ hgiven _ ihgiven ihmore | index hstep _ hgiven _ ihgiven ihmore =>
    intro hbehind hstop hleft
    have hfree := hgo hc hstep nofun
    obtain ⟨-, hbehind'⟩ := hgiven.laysOut (hin hc)
    obtain ⟨hparts, hpasses⟩ := ihgiven (hin hc)
    refine ihmore hbehind'.inRow hbehind' rfl (written_iff.mpr ⟨?_, ?_⟩)
    · exact spelled_close_after hbehind hstop hbehind'.last_lt rfl (hpasses.after hfree) trivial
    · exact List.forall_mem_cons.mpr ⟨hleft, hparts⟩
  | doubleIndex hstep _ hgiven hclose _ ihgiven ihmore =>
    intro hbehind hstop hleft
    have hfree := hgo hc hstep nofun
    obtain ⟨-, hbehind'⟩ := hgiven.laysOut (hin hc)
    obtain ⟨hparts, hpasses⟩ := ihgiven (hin hc)
    have htaken := (hbehind'.inRow.took (Lexeme.isTrivia_of_kind hclose rfl)).behind
    refine ihmore htaken.inRow htaken rfl (written_iff.mpr ⟨?_, ?_⟩)
    · exact spelled_close_after hbehind hstop htaken.last_lt rfl
        ((hpasses.after hfree).before (hkind hbehind'.inRow hclose rfl)) trivial
    · exact List.forall_mem_cons.mpr ⟨hleft, hparts⟩
  | member hstep _ hmember _ ihmore =>
    intro hbehind hstop hleft
    obtain ⟨name, hname, rfl, rfl⟩ := readMember_eq_ok_iff.mp hmember
    have hinside := hskip (hin hc)
    obtain ⟨-, htaken, -⟩ := hinside.advance (isTrivia_of_memberName? hname)
    have hfree := ((hgo hc hstep nofun).trans (hin hc).free_skipNewlines).trans
      (hinside.free_advance (isAssignment_of_memberName? hname))
    refine ihmore htaken.inRow htaken rfl (written_iff.mpr ⟨?_, hone hleft⟩)
    exact spelled_close_after hbehind hstop htaken.last_lt rfl hfree.passes trivial
  | between hstep _ hright _ ihright ihmore =>
    intro hbehind hstop hleft
    have hinside := hskip (hin hc)
    have hread := hright.laysOut hinside
    refine ihmore hread.behind.inRow hread.behind rfl (written_iff.mpr ⟨?_, ?_⟩)
    · exact spelled_close_between hbehind hstop (Continuation.kind_ne_endOfInput hstep)
        hread.behind.last_lt ((hinside.passes_read hread).after (hin hc).free_skipNewlines)
    · show ∀ child ∈ (Form.between _ _ _ _).children, Written row child
      rw [Form.children_between]
      exact List.forall_mem_cons.mpr ⟨hleft, hone (ihright hinside)⟩
  | leaf hopening =>
    have htaken := (hc.took (Opening.isTrivia_eq_false hopening)).behind
    refine written_close htaken.last_lt (reaches_settle _).index_le (hopen hc hopening).passes
      (named_close_leaf hopening) ?_
    rw [(children_leaf hopening).1]
    exact nofun
  | name hopening hname =>
    have took := hc.took (Opening.isTrivia_eq_false hopening)
    refine written_readName took.behind (reaches_settle _).index_le (hopen hc hopening)
      (Opening.kind_of_name hopening) ?_ hname
    rw [took.last]
    exact (hc.of_reaches (reaches_settle _)).getElem?_index (Opening.kind_ne_endOfInput hopening)
  | paren hopening hinner hclose ihinner =>
    have hread := hinner.laysOut (hin hc)
    have htaken := (hread.behind.inRow.took (Lexeme.isTrivia_of_kind hclose rfl)).behind
    have hpasses := (In.passes_read (c := enter _ .round) (hin hc) hread).after (hopen hc hopening)
    exact written_close htaken.last_lt (reaches_settle _).index_le
      (hpasses.before (hkind hread.behind.inRow hclose rfl)) trivial (hone (ihinner (hin hc)))
  | block hopening hbody ihbody =>
    obtain ⟨hparts, hpasses⟩ := ihbody (hin hc)
    have hclose := hbody.head_of_statements rfl
    have hinside := (hin hc).of_reaches hbody.reaches
    obtain ⟨-, htaken, -⟩ := hinside.advance (Lexeme.isTrivia_of_kind hclose rfl)
    exact written_close htaken.last_lt (reaches_settle _).index_le
      ((hpasses.after (hopen hc hopening)).before (hinside.free_advance (hclose ▸ rfl))) trivial
      hparts
  | sign hopening hinner ihinner | tilde hopening hinner ihinner
  | repeatLoop hopening hinner ihinner =>
    have hinside := hskip (hin hc)
    have hread := hinner.laysOut hinside
    have hfree := (hopen hc hopening).trans (hin hc).free_skipNewlines
    exact written_close hread.behind.last_lt (reaches_settle _).index_le
      ((hinside.passes_read hread).after hfree) trivial (hone (ihinner hinside))
  | function hopening hparen hgiven hbody ihgiven ihbody =>
    have hinside := hin (hin hc)
    obtain ⟨-, hbehind⟩ := hgiven.laysOut hinside
    obtain ⟨hparts, hpasses⟩ := ihgiven hinside
    have hread := hbody.laysOut hbehind.skipNewlines.inRow
    have hfree := (hopen hc hopening).trans (hkind (hin hc) hparen rfl)
    have hbodyPasses := (hbehind.skipNewlines.inRow.passes_read hread).after
      hbehind.inRow.free_skipNewlines
    have hwhole := (hpasses.append hbodyPasses).after hfree
    rw [List.append_nil] at hwhole
    exact written_close hread.behind.last_lt (reaches_settle _).index_le hwhole trivial
      (List.forall_mem_append.mpr ⟨hparts, hone (ihbody hbehind.skipNewlines.inRow)⟩)
  | conditional hopening hcondition hconsequent halternative ihcondition ihconsequent
      ihalternative =>
    obtain ⟨hparts, hpasses⟩ := ihcondition (hin hc)
    have hinside := (hin hc).of_reaches hcondition.reaches
    have hread := hconsequent.laysOut hinside
    obtain ⟨hparts', hpasses'⟩ := ihalternative hread.behind.inRow
    obtain ⟨-, hbehind⟩ := halternative.laysOut hread.behind.inRow hread.behind
    have hwhole := (hpasses.append ((hinside.passes_read hread).append hpasses')).after
      (hopen hc hopening)
    exact written_close hbehind.last_lt (reaches_settle _).index_le hwhole trivial
      (List.forall_mem_append.mpr ⟨List.forall_mem_cons.mpr
        ⟨hparts _ List.mem_cons_self, hone (ihconsequent hinside)⟩, hparts'⟩)
  | @forLoop sequence body c c₁ c₂ c₃ hopening hparen hinside hcounter hword hsequence hclose hbody
      ihsequence ihbody =>
    subst hinside
    have hparen' := hin (hin hc)
    have hcounter' := hin (c := enter _ .round) hparen'
    have hword' := hin hcounter'
    have hread := hsequence.laysOut hword'
    have hclose' := hskip (c := leave _) (hin hread.behind.inRow)
    have hread' := hbody.laysOut hclose'
    have hfree := ((hopen hc hopening).trans (hkind (hin hc) hparen rfl)).trans
      ((hkind (c := enter _ .round) hparen' hcounter rfl).trans (hkind hcounter' hword rfl))
    have hfree' := (hkind hread.behind.inRow hclose rfl).trans
      (In.free_skipNewlines (c := leave _) (hin hread.behind.inRow))
    have hwhole := ((hword'.passes_read hread).append
      ((hclose'.passes_read hread').after hfree')).after hfree
    exact written_close hread'.behind.last_lt (reaches_settle _).index_le hwhole trivial
      (List.forall_mem_cons.mpr ⟨ihsequence hword', hone (ihbody hclose')⟩)
  | whileLoop hopening hcondition hbody ihcondition ihbody =>
    obtain ⟨hparts, hpasses⟩ := ihcondition (hin hc)
    have hinside := (hin hc).of_reaches hcondition.reaches
    have hread := hbody.laysOut hinside
    have hwhole := (hpasses.append (hinside.passes_read hread)).after (hopen hc hopening)
    exact written_close hread.behind.last_lt (reaches_settle _).index_le hwhole trivial
      (List.forall_mem_cons.mpr ⟨hparts _ List.mem_cons_self, hone (ihbody hinside)⟩)
  | header hparen hcondition hclose ihcondition =>
    have hread := hcondition.laysOut (hin hc)
    have hfree := (hkind hread.behind.inRow hclose rfl).trans
      (In.free_skipNewlines (c := leave _) (hin hread.behind.inRow))
    exact ⟨hone (ihcondition (hin hc)),
      ((In.passes_read (c := enter _ .round) (hin hc) hread).after (hkind hc hparen rfl)).before
        hfree⟩
  | elseBranch helse hbranch ihbranch =>
    have hbefore := hc.of_reaches (reaches_beforeElse _)
    have hinside := hbefore.of_reaches (reaches_advance _)
    have hread := hbranch.laysOut (hskip hinside)
    have hfree := (hc.free_beforeElse.trans (hbefore.free_advance (helse ▸ rfl))).trans
      hinside.free_skipNewlines
    exact ⟨hone (ihbranch (hskip hinside)), ((hskip hinside).passes_read hread).after hfree⟩
  | noElse => exact ⟨nofun, Free.passes fun index hle hlt => absurd hlt (Nat.not_lt.mpr hle)⟩
  | noStatements => exact ⟨nofun, hc.free_skipSeparators.passes⟩
  | statement _ hfirst _ _ ihfirst ihothers =>
    have hinside := hc.of_reaches (reaches_skipSeparators _)
    have hread := hfirst.laysOut hinside
    obtain ⟨hparts, hpasses⟩ := ihothers hread.behind.inRow
    exact ⟨List.forall_mem_cons.mpr ⟨ihfirst hinside, hparts⟩,
      ((hinside.passes_read hread).append hpasses).after hc.free_skipSeparators⟩
  | @noArguments closer c hclose =>
    exact ⟨nofun, (hkind hc hclose (by cases closer <;> rfl)).passes⟩
  | noParameters hclose => exact ⟨nofun, (hkind hc hclose rfl).passes⟩
  | someArguments _ _ ihgiven | someParameters _ _ ihgiven =>
    obtain ⟨hparts, hpasses⟩ := ihgiven (hc.of_reaches (reaches_settle _))
    exact ⟨hparts, hpasses.after hc.free_settle⟩
  | @lastArgument closer first c c₁ hfirst hclose ihfirst =>
    obtain ⟨hparts, hpasses⟩ := ihfirst hc
    have hfree := hkind (hc.of_reaches hfirst.reaches) hclose (by cases closer <;> rfl)
    refine ⟨forall_mem_filterMap_cons hparts nofun, ?_⟩
    show Passes row (List.filterMap _ [first]) (List.filterMap _ [first]) _ _
    rw [hsplit, hsplit]
    exact hpasses.append hfree.passes
  | @moreArguments closer first others c c₁ c₂ hfirst hcomma _ ihfirst ihothers =>
    obtain ⟨hparts, hpasses⟩ := ihfirst hc
    have hinside := hc.of_reaches hfirst.reaches
    obtain ⟨hparts', hpasses'⟩ := ihothers (hin hinside)
    refine ⟨forall_mem_filterMap_cons hparts hparts', ?_⟩
    show Passes row (List.filterMap _ (first :: others)) (List.filterMap _ (first :: others)) _ _
    rw [hsplit, hsplit]
    exact hpasses.append (hpasses'.after (hkind hinside hcomma rfl))
  | namedArgument hname hequal _ ihvalue =>
    obtain ⟨hparts, hpasses⟩ := ihvalue (hin (hin hc))
    exact ⟨hparts, (passes_named hc hname hequal).append hpasses⟩
  | plainArgument _ _ ihvalue =>
    obtain ⟨hparts, hpasses⟩ := ihvalue (hc.of_reaches (reaches_settle _))
    exact ⟨hparts, hpasses.after hc.free_settle⟩
  | noValue => exact ⟨nofun, hc.free_settle.passes⟩
  | value _ hvalue ihvalue =>
    have hinside := hc.of_reaches (reaches_settle _)
    exact ⟨hone (ihvalue hinside),
      (hinside.passes_read (hvalue.laysOut hinside)).after hc.free_settle⟩
  | lastParameter hname hfallback hclose ihfallback =>
    have hname' := argumentName?_of_identifier hname
    obtain ⟨hparts, hpasses⟩ := ihfallback (hin hc)
    have hvalue := (hpasses _ (nameBefore_settle hc hname')).after (hkind hc hname rfl)
    have hfree := hkind ((hin hc).of_reaches hfallback.reaches) hclose rfl
    refine ⟨forall_mem_filterMap_cons hparts nofun, ?_⟩
    show Passes row _ (List.filterMap _ [_]) _ _
    rw [hsplit]
    have hclosed : Passes row [] [] _ _ := hfree.passes
    exact hvalue.append hclosed
  | moreParameters hname hfallback hcomma _ ihfallback ihothers =>
    have hname' := argumentName?_of_identifier hname
    obtain ⟨hparts, hpasses⟩ := ihfallback (hin hc)
    have hvalue := (hpasses _ (nameBefore_settle hc hname')).after (hkind hc hname rfl)
    have hinside := (hin hc).of_reaches hfallback.reaches
    obtain ⟨hparts', hpasses'⟩ := ihothers (hin hinside)
    refine ⟨forall_mem_filterMap_cons hparts hparts', ?_⟩
    show Passes row _ (List.filterMap _ (_ :: _)) _ _
    rw [hsplit]
    exact hvalue.append (hpasses'.after (hkind hinside hcomma rfl))
  | fallback hequal hvalue ihvalue =>
    have hread := hvalue.laysOut (hin hc)
    refine ⟨hone (ihvalue (hin hc)), fun name hbefore => ?_⟩
    exact (passes_sign hc (fun _ => hequal) hbefore).append ((hin hc).passes_read hread)
  | noFallback => exact ⟨nofun, fun name _ => hc.free_settle.passes⟩

/-- What is read off a row is written with its lexemes. -/
theorem written_readAll {lexemes : List Lexeme} {es : List Expr} (h : readAll lexemes = .ok es) :
    ∀ e ∈ es, e.Written lexemes := by
  obtain ⟨c, hreads⟩ := readAll_eq_ok_iff.mp h
  exact (hreads.written (in_ofLexemes lexemes)).1

end Expr
end TypeDrift
