import Mathlib.Data.List.Nodup
import Mathlib.Data.List.Perm.Basic
import Mathlib.Data.List.Range
import TypeDrift.Proofs.Expr.Nesting
import TypeDrift.Proofs.Script.Ranges
import TypeDrift.Script.Table

/-! # The parse table is the syntax tree

A table has lost the tree that it was made from: its rows are sorted by place and know of each other
by number alone.  This module shows that the tree can be had back from them (`table_mirrors`).  The
rows of expressions are the expressions of the script, one each, and each of them names the row of
the expression it is a part of; a token names the innermost expression around it.

The innermost one is found by a walk over all expressions that keeps the last one around the token.
That the last one is the innermost one is where the ranges come in: of two expressions around one
token the later one in the walk stands within the earlier one (`Nested.sub`).
-/
namespace TypeDrift

/-- What is looked up by a key that nothing else has is found. -/
theorem find?_key_eq_some {α κ : Type} [DecidableEq κ] {key : α → κ} {l : List α}
    (hnodup : (l.map key).Nodup) {a : α} (ha : a ∈ l) :
    (l.find? fun b => key b == key a) = some a := by
  cases hfind : l.find? fun b => key b == key a with
  | none => exact absurd (beq_self_eq_true (key a)) (List.find?_eq_none.mp hfind a ha)
  | some b =>
    have hkey := List.find?_some hfind
    have hmem := List.mem_of_find?_eq_some hfind
    rw [List.inj_on_of_nodup_map hnodup hmem ha (eq_of_beq hkey)]

/-- Expressions that hang from the row `parent`, and all their parts, numbered from `id` on. -/
inductive Numbering : (id parent : Nat) → List Expr → List (Numbered Expr) → Prop
  | nil {id parent : Nat} : Numbering id parent [] []
  | cons {id parent : Nat} {e : Expr} {es : List Expr} {inner others : List (Numbered Expr)}
      (hinner : Numbering (id + 1) id e.children inner)
      (hothers : Numbering (id + (inner.length + 1)) parent es others) :
      Numbering id parent (e :: es) (⟨id, parent, e⟩ :: (inner ++ others))

namespace Numbering

open TypeDrift.Expr

theorem numberAll_of_forall {es : List Expr} {id parent : Nat}
    (h : ∀ e ∈ es, ∀ id parent, ∃ inner, e.tree.number id parent = ⟨id, parent, e⟩ :: inner ∧
      Numbering (id + 1) id e.children inner) :
    Numbering id parent es (Tree.numberAll id parent (es.map Expr.tree)) := by
  induction es generalizing id with
  | nil => exact .nil
  | cons e es ih =>
    obtain ⟨he, hes⟩ := List.forall_mem_cons.mp h
    obtain ⟨inner, hnumber, hinner⟩ := he id parent
    rw [List.map_cons, Tree.numberAll, hnumber]
    exact .cons hinner (ih hes)

theorem exists_number (e : Expr) (id parent : Nat) :
    ∃ inner, e.tree.number id parent = ⟨id, parent, e⟩ :: inner ∧
      Numbering (id + 1) id e.children inner := by
  induction e using induction_children generalizing id parent with
  | step e ih =>
    refine ⟨Tree.numberAll (id + 1) id (e.children.map Expr.tree), ?_, numberAll_of_forall ih⟩
    rw [tree_eq, Tree.number]

theorem numberAll (es : List Expr) (id parent : Nat) :
    Numbering id parent es (Tree.numberAll id parent (es.map Expr.tree)) :=
  numberAll_of_forall fun e _ => exists_number e

variable {id parent : Nat} {es : List Expr} {nodes : List (Numbered Expr)}

/-- Every expression is numbered, in the order of the walk. -/
theorem labels_eq (h : Numbering id parent es nodes) :
    nodes.map Numbered.label = preorderAll es := by
  induction h with
  | nil => rfl
  | @cons id parent e es inner others _ _ ihinner ihothers =>
    rw [List.map_cons, List.map_append, ihinner, ihothers, preorderAll_cons, preorder_eq,
      List.cons_append]

/-- The numbers are given out one after the other. -/
theorem ids_eq (h : Numbering id parent es nodes) :
    nodes.map Numbered.id = List.range' id nodes.length := by
  induction h with
  | nil => rfl
  | @cons id parent e es inner others _ _ ihinner ihothers =>
    rw [List.map_cons, List.map_append, ihinner, ihothers, List.length_cons, List.length_append,
      List.range'_succ, ← List.range'_append_1]
    congr 3
    omega

theorem top (h : Numbering id parent es nodes) :
    ∀ e ∈ es, ∃ node ∈ nodes, node.label = e ∧ node.parent = parent := by
  induction h with
  | nil => exact nofun
  | cons _ _ _ ihothers =>
    refine List.forall_mem_cons.mpr ⟨⟨_, List.mem_cons_self, rfl, rfl⟩, fun e he => ?_⟩
    obtain ⟨node, hnode, hlabel⟩ := ihothers e he
    exact ⟨node, List.mem_cons_of_mem _ (List.mem_append_right _ hnode), hlabel⟩

/-- The parts of an expression hang from it. -/
theorem part (h : Numbering id parent es nodes) : ∀ node ∈ nodes, ∀ child ∈ node.label.children,
    ∃ below ∈ nodes, below.label = child ∧ below.parent = node.id := by
  induction h with
  | nil => exact nofun
  | @cons id parent e es inner others hinner _ ihinner ihothers =>
    have hmono {nodes' : List (Numbered Expr)} {child : Expr} {number : Nat}
        (hmem : ∀ node ∈ nodes', node ∈ inner ++ others)
        (hbelow : ∃ below ∈ nodes', below.label = child ∧ below.parent = number) :
        ∃ below ∈ (⟨id, parent, e⟩ : Numbered Expr) :: (inner ++ others),
          below.label = child ∧ below.parent = number := by
      obtain ⟨below, hbelow, heq⟩ := hbelow
      exact ⟨below, List.mem_cons_of_mem _ (hmem below hbelow), heq⟩
    refine List.forall_mem_cons.mpr ⟨fun child hchild => ?_, fun node hnode child hchild => ?_⟩
    · exact hmono (fun _ => List.mem_append_left _) (hinner.top child hchild)
    · rcases List.mem_append.mp hnode with hnode | hnode
      · exact hmono (fun _ => List.mem_append_left _) (ihinner node hnode child hchild)
      · exact hmono (fun _ => List.mem_append_right _) (ihothers node hnode child hchild)

/-- What hangs from a numbered expression has been numbered after it. -/
theorem parent_lt (h : Numbering id parent es nodes) : ∀ node ∈ nodes,
    node.parent = parent ∨ ∃ above ∈ nodes, above.id = node.parent ∧ above.id < node.id := by
  have hle {id parent : Nat} {es : List Expr} {nodes : List (Numbered Expr)}
      (h : Numbering id parent es nodes) : ∀ node ∈ nodes, id ≤ node.id := by
    intro node hnode
    have hid : node.id ∈ nodes.map Numbered.id := List.mem_map_of_mem hnode
    rw [h.ids_eq, List.mem_range'_1] at hid
    exact hid.1
  induction h with
  | nil => exact nofun
  | @cons id parent e es inner others hinner _ ihinner ihothers =>
    refine List.forall_mem_cons.mpr ⟨.inl rfl, fun node hnode => ?_⟩
    rcases List.mem_append.mp hnode with hnode | hnode
    · refine .inr ?_
      rcases ihinner node hnode with heq | ⟨above, habove, hid⟩
      · exact ⟨_, List.mem_cons_self, heq.symm, hle hinner node hnode⟩
      · exact ⟨above, List.mem_cons_of_mem _ (List.mem_append_left _ habove), hid⟩
    · rcases ihothers node hnode with heq | ⟨above, habove, hid⟩
      · exact .inl heq
      · exact .inr ⟨above, List.mem_cons_of_mem _ (List.mem_append_right _ habove), hid⟩

end Numbering

namespace Script

/-- The number of an expression in the table of a script. -/
def numberOf (script : Script) (e : Expr) : Nat :=
  ((script.numbered.find? fun node => node.label.range == e.range).map Numbered.id).getD 0

/-- The expression with the smallest range around the token with this index. -/
structure Innermost (script : Script) (index : Nat) (e : Expr) : Prop where
  mem : e ∈ script.nodes
  contains : e.range.contains index = true
  least : ∀ other ∈ script.nodes, other.range.contains index = true → other ≠ e →
    e.range.stop - e.range.start < other.range.stop - other.range.start

end Script

/-- From the row with this number the parents lead out of the table. -/
inductive Table.Rooted (table : Table) : Nat → Prop
  | outside : Rooted table 0
  | up {id : Nat} {row : Row} (hrow : table.row? id = some row) (habove : Rooted table row.parent) :
      Rooted table id

/-- A table says of a script what its expressions and tokens are and how they hang together. -/
structure Table.Mirrors (table : Table) (script : Script) : Prop where
  distinct : (table.rows.map Row.id).Nodup
  positive : ∀ row ∈ table.rows, 0 < row.id
  /-- One row for each expression, and no other rows but those of tokens. -/
  expressions : ((table.rows.filter fun row => !row.terminal).map fun row => (row.id, row.span)).Perm
    (script.nodes.map fun e => (script.numberOf e, script.span e))
  /-- One row for each token that is neither a line break nor the end of input. -/
  terminals : (table.terminals.map fun row => (row.id, row.text, row.span)).Perm
    ((script.tokens.toList.zipIdx.filter fun token =>
      token.1.kind ≠ .newline ∧ token.1.kind ≠ .endOfInput).map fun token =>
        (token.2 + 1, token.1.text, token.1.span))
  top : ∀ e ∈ script.expressions,
    ∃ row, table.row? (script.numberOf e) = some row ∧ row.parent = 0
  part : ∀ e ∈ script.nodes, ∀ child ∈ e.children,
    ∃ row, table.row? (script.numberOf child) = some row ∧ row.parent = script.numberOf e
  owner : ∀ index token, script.tokens[index]? = some token →
    token.kind ≠ .newline → token.kind ≠ .endOfInput →
    ∃ row, table.row? (index + 1) = some row ∧
      ((∃ e, script.Innermost index e ∧ row.parent = script.numberOf e) ∨
        (row.parent = 0 ∧ token.kind = .semicolon ∧
          ∀ e ∈ script.nodes, e.range.contains index = false))
  rooted : ∀ row ∈ table.rows, table.Rooted row.id

namespace Script

/-- The walk for the owner of a token stops with the innermost expression around it. -/
theorem owner_spec {nodes : List (Numbered Expr)}
    (h : (nodes.map Numbered.label).Pairwise Expr.Nested) (index : Nat) :
    (owner nodes index = 0 ∧ ∀ node ∈ nodes, node.label.range.contains index = false) ∨
      ∃ node ∈ nodes, owner nodes index = node.id ∧ node.label.range.contains index = true ∧
        ∀ other ∈ nodes, other.label.range.contains index = true →
          node.label.range.Sub other.label.range := by
  induction nodes using List.reverseRecOn with
  | nil => exact .inl ⟨rfl, nofun⟩
  | append_singleton nodes last ih =>
    rw [List.map_append, List.pairwise_append] at h
    obtain ⟨hnodes, -, hlast⟩ := h
    have howner : owner (nodes ++ [last]) index =
        if last.label.range.contains index then last.id else owner nodes index :=
      List.foldl_concat ..
    by_cases hcontains : last.label.range.contains index = true
    · refine .inr ⟨last, List.mem_concat_self, by rw [howner, if_pos hcontains], hcontains, ?_⟩
      intro other hother hother'
      rcases List.mem_append.mp hother with hother | hother
      · exact (hlast _ (List.mem_map_of_mem hother) _ List.mem_cons_self).sub hother' hcontains
      · rw [List.mem_singleton.mp hother]
        exact .refl _
    · rw [howner, if_neg hcontains]
      rcases ih hnodes with ⟨hzero, hnone⟩ | ⟨node, hnode, hid, hnode', hleast⟩
      · refine .inl ⟨hzero, List.forall_mem_append.mpr ⟨hnone, ?_⟩⟩
        exact List.forall_mem_singleton.mpr (Bool.eq_false_iff.mpr hcontains)
      · refine .inr ⟨node, List.mem_append_left _ hnode, hid, hnode', ?_⟩
        refine List.forall_mem_append.mpr ⟨hleast, ?_⟩
        exact List.forall_mem_singleton.mpr fun hlast => absurd hlast hcontains

section Rows
variable {script : Script}

/-- The rows of the tokens that are written out. -/
def terminalRows (script : Script) : List Row :=
  script.tokens.toList.zipIdx.filterMap fun token =>
    terminalRow? script.numbered (script.numbered.filterMap fun node => calleeToken? node.label)
      token.1 token.2

theorem rows_perm (script : Script) :
    script.table.rows.Perm (script.numbered.map script.expressionRow ++ script.terminalRows) :=
  List.mergeSort_perm ..

theorem terminal_of_mem {row : Row} (h : row ∈ script.terminalRows) : row.terminal = true := by
  obtain ⟨token, -, hrow⟩ := List.mem_filterMap.mp h
  unfold terminalRow? at hrow
  split at hrow
  · cases hrow
  · cases hrow
    rfl

theorem expression_rows_perm (script : Script) :
    (script.table.rows.filter fun row => !row.terminal).Perm
      (script.numbered.map script.expressionRow) := by
  have hperm := script.rows_perm.filter fun row => !row.terminal
  rw [List.filter_append] at hperm
  have hexpressions : (script.numbered.map script.expressionRow).filter (fun row => !row.terminal) =
      script.numbered.map script.expressionRow :=
    List.filter_eq_self.mpr (List.forall_mem_map.mpr fun _ _ => rfl)
  have hterminals : script.terminalRows.filter (fun row => !row.terminal) = [] :=
    List.filter_eq_nil_iff.mpr fun row hrow => by simp [terminal_of_mem hrow]
  rwa [hexpressions, hterminals, List.append_nil] at hperm

theorem terminals_perm (script : Script) : script.table.terminals.Perm script.terminalRows := by
  have hperm := script.rows_perm.filter Row.terminal
  rw [List.filter_append] at hperm
  have hexpressions : (script.numbered.map script.expressionRow).filter Row.terminal = [] :=
    List.filter_eq_nil_iff.mpr (List.forall_mem_map.mpr fun _ _ => Bool.false_ne_true)
  have hterminals : script.terminalRows.filter Row.terminal = script.terminalRows :=
    List.filter_eq_self.mpr fun row hrow => terminal_of_mem hrow
  rwa [hexpressions, hterminals, List.nil_append] at hperm

theorem mem_terminalRows_iff {row : Row} :
    row ∈ script.terminalRows ↔ ∃ index token, script.tokens[index]? = some token ∧
      terminalRow? script.numbered
        (script.numbered.filterMap fun node => calleeToken? node.label) token index = some row := by
  rw [terminalRows, List.mem_filterMap]
  constructor
  · rintro ⟨⟨token, index⟩, hmem, hrow⟩
    exact ⟨index, token, Array.getElem?_toList ▸ List.mem_zipIdx_iff_getElem?.mp hmem, hrow⟩
  · rintro ⟨index, token, htoken, hrow⟩
    exact ⟨(token, index), List.mem_zipIdx_iff_getElem?.mpr (Array.getElem?_toList ▸ htoken), hrow⟩

/-- What the rows of the tokens say, but for names and owners. -/
theorem terminalRows_map {β : Type} (f : Nat × String × Span → β) :
    (script.terminalRows.map fun row => f (row.id, row.text, row.span)) =
      (script.tokens.toList.zipIdx.filter fun token =>
        token.1.kind ≠ .newline ∧ token.1.kind ≠ .endOfInput).map fun token =>
          f (token.2 + 1, token.1.text, token.1.span) := by
  rw [terminalRows, List.map_filterMap, ← List.filterMap_eq_map, List.filterMap_filter]
  congr 1
  funext token
  by_cases htrivia : token.1.isTrivia = true
  · have hkind : ¬ (token.1.kind ≠ .newline ∧ token.1.kind ≠ .endOfInput) := by
      rw [← Kind.isTrivia_eq_false_iff, Bool.not_eq_false]
      exact htrivia
    rw [terminalRow?, if_pos htrivia, if_neg (by simpa using hkind), Option.map_none]
  · have hkind : token.1.kind ≠ .newline ∧ token.1.kind ≠ .endOfInput :=
      Kind.isTrivia_eq_false_iff.mp (Bool.eq_false_iff.mpr htrivia)
    rw [terminalRow?, if_neg htrivia, if_pos (by simpa using hkind)]
    rfl

theorem numbering (script : Script) :
    Numbering (script.tokens.size + 1) 0 script.expressions script.numbered :=
  Numbering.numberAll ..

theorem labels_numbered (script : Script) : script.numbered.map Numbered.label = script.nodes :=
  script.numbering.labels_eq

/-- Tokens are numbered from one. -/
theorem ids_terminalRows (script : Script) :
    (script.terminalRows.map Row.id).Sublist (List.range' 1 script.tokens.size) := by
  have hindices : (script.tokens.toList.zipIdx.map fun token => token.2 + 1) =
      List.range' 1 script.tokens.size :=
    calc (script.tokens.toList.zipIdx.map fun token => token.2 + 1)
      _ = (script.tokens.toList.zipIdx.map Prod.snd).map (1 + ·) := by
        rw [List.map_map]
        exact List.map_congr_left fun token _ => Nat.add_comm _ _
      _ = List.range' 1 script.tokens.size := by
        rw [List.zipIdx_map_snd, List.map_add_range', Array.length_toList]
  have hids := script.terminalRows_map Prod.fst
  rw [show script.terminalRows.map Row.id = _ from hids, ← hindices]
  exact List.filter_sublist.map _

/-- No two rows have one number: the expressions are numbered behind the tokens. -/
theorem ids_nodup (script : Script) : (script.table.rows.map Row.id).Nodup := by
  have hperm := script.rows_perm.map Row.id
  rw [List.map_append, List.map_map] at hperm
  have hexpressions : script.numbered.map (Row.id ∘ script.expressionRow) =
      List.range' (script.tokens.size + 1) script.numbered.length := script.numbering.ids_eq
  have hterminals := script.ids_terminalRows
  rw [hexpressions] at hperm
  refine hperm.nodup_iff.mpr (List.nodup_append.mpr ⟨List.nodup_range', ?_, ?_⟩)
  · exact hterminals.nodup List.nodup_range'
  · intro number hnumber other hother heq
    have hother := hterminals.subset hother
    rw [List.mem_range'_1] at hnumber hother
    omega

theorem id_pos {row : Row} (h : row ∈ script.table.rows) : 0 < row.id := by
  rcases List.mem_append.mp (script.rows_perm.mem_iff.mp h) with hrow | hrow
  · obtain ⟨node, hnode, rfl⟩ := List.mem_map.mp hrow
    have hid : node.id ∈ script.numbered.map Numbered.id := List.mem_map_of_mem hnode
    rw [script.numbering.ids_eq, List.mem_range'_1] at hid
    show 0 < node.id
    omega
  · have hid := script.ids_terminalRows.subset (List.mem_map_of_mem hrow)
    rw [List.mem_range'_1] at hid
    omega

/-- The row of an expression is found by its number. -/
theorem row?_expression {node : Numbered Expr} (h : node ∈ script.numbered) :
    script.table.row? node.id = some (script.expressionRow node) :=
  find?_key_eq_some script.ids_nodup
    (script.rows_perm.mem_iff.mpr (List.mem_append_left _ (List.mem_map_of_mem h)))

theorem row?_terminal {row : Row} (h : row ∈ script.terminalRows) :
    script.table.row? row.id = some row :=
  find?_key_eq_some script.ids_nodup (script.rows_perm.mem_iff.mpr (List.mem_append_right _ h))

/-- The parents lead out of the table from every expression: they have been numbered before it. -/
theorem rooted_expression (id : Nat) :
    ∀ node ∈ script.numbered, node.id = id → script.table.Rooted id := by
  induction id using Nat.strongRecOn with
  | ind id ih =>
    rintro node hnode rfl
    refine .up (row?_expression hnode) ?_
    rcases script.numbering.parent_lt node hnode with hzero | ⟨above, habove, hid, hlt⟩
    · show script.table.Rooted node.parent
      rw [hzero]
      exact .outside
    · show script.table.Rooted node.parent
      rw [← hid]
      exact ih above.id hlt above habove rfl

end Rows

variable {source : String} {script : Script}

theorem nested_of_read (h : read source = .ok script) :
    (script.numbered.map Numbered.label).Pairwise Expr.Nested := by
  rw [labels_numbered]
  exact (laid_of_read h).1.nested

theorem numberOf_label (h : read source = .ok script) {node : Numbered Expr}
    (hnode : node ∈ script.numbered) : script.numberOf node.label = node.id := by
  have hnodup : (script.numbered.map fun node => node.label.range).Nodup := by
    have hranges := (laid_of_read h).1.ranges_nodup
    rwa [show Expr.preorderAll script.expressions = _ from script.labels_numbered.symm,
      List.map_map] at hranges
  rw [numberOf, find?_key_eq_some hnodup hnode]
  rfl

/-- The walk finds the owner of a token, or there is none. -/
theorem innermost_or_outside (h : read source = .ok script) (index : Nat) :
    (∃ e, script.Innermost index e ∧ owner script.numbered index = script.numberOf e) ∨
      (owner script.numbered index = 0 ∧
        ∀ e ∈ script.nodes, e.range.contains index = false) := by
  have hmem {p : Expr → Prop} (hp : ∀ node ∈ script.numbered, p node.label) :
      ∀ e ∈ script.nodes, p e := by
    rw [← labels_numbered]
    exact List.forall_mem_map.mpr hp
  rcases owner_spec (nested_of_read h) index with ⟨hzero, hnone⟩ | ⟨node, hnode, hid, hin, hleast⟩
  · exact .inr ⟨hzero, hmem hnone⟩
  · have hnode' : node.label ∈ script.nodes := script.labels_numbered ▸ List.mem_map_of_mem hnode
    refine .inl ⟨node.label, ⟨hnode', hin, ?_⟩, hid.trans (numberOf_label h hnode).symm⟩
    intro other hother hother' hne
    have hsub := hmem (p := fun e => e.range.contains index = true → node.label.range.Sub e.range)
      hleast other hother hother'
    have hrange : node.label.range ≠ other.range := fun heq =>
      hne (List.inj_on_of_nodup_map (laid_of_read h).1.ranges_nodup hnode' hother heq).symm
    exact hsub.length_lt hrange hin

/-- The row of a token that is written out, and the expression it belongs to. -/
theorem exists_terminal_row (h : read source = .ok script) {index : Nat} {token : Token}
    (htoken : script.tokens[index]? = some token) (hnewline : token.kind ≠ .newline)
    (hend : token.kind ≠ .endOfInput) :
    ∃ row, script.table.row? (index + 1) = some row ∧
      ((∃ e, script.Innermost index e ∧ row.parent = script.numberOf e) ∨
        (row.parent = 0 ∧ token.kind = .semicolon ∧
          ∀ e ∈ script.nodes, e.range.contains index = false)) := by
  have htrivia : ¬ token.isTrivia = true :=
    Bool.eq_false_iff.mp (Kind.isTrivia_eq_false_iff.mpr ⟨hnewline, hend⟩)
  have hrow := mem_terminalRows_iff.mpr ⟨index, token, htoken, if_neg htrivia⟩
  refine ⟨_, row?_terminal hrow, ?_⟩
  refine (innermost_or_outside h index).imp id fun ⟨hzero, houtside⟩ => ⟨hzero, ?_, houtside⟩
  refine kind_of_outside h htoken hnewline hend fun e he => houtside e ?_
  exact List.mem_flatMap.mpr ⟨e, he, Expr.preorder_eq e ▸ List.mem_cons_self⟩

theorem rooted_of_read (h : read source = .ok script) :
    ∀ row ∈ script.table.rows, script.table.Rooted row.id := by
  intro row hrow
  rcases List.mem_append.mp (script.rows_perm.mem_iff.mp hrow) with hrow | hrow
  · obtain ⟨node, hnode, rfl⟩ := List.mem_map.mp hrow
    exact rooted_expression node.id node hnode rfl
  · refine .up (row?_terminal hrow) ?_
    obtain ⟨index, token, -, hrow⟩ := mem_terminalRows_iff.mp hrow
    unfold terminalRow? at hrow
    split at hrow
    · cases hrow
    · cases hrow
      rcases owner_spec (nested_of_read h) index with ⟨hzero, -⟩ | ⟨node, hnode, hid, -⟩
      · exact hzero ▸ .outside
      · exact hid ▸ rooted_expression node.id node hnode rfl

/-- **The parse table is the syntax tree.**  It has one row for each expression and one for each
token that is written out; the parents of its rows are the edges of the tree and, for tokens, the
innermost expressions around them, and they lead from every row out of the table. -/
theorem table_mirrors (h : read source = .ok script) : script.table.Mirrors script := by
  have hnumber (node : Numbered Expr) (hnode : node ∈ script.numbered) :
      script.table.row? (script.numberOf node.label) = some (script.expressionRow node) := by
    rw [numberOf_label h hnode]
    exact row?_expression hnode
  refine ⟨script.ids_nodup, fun row hrow => id_pos hrow, ?_, ?_, ?_, ?_, ?_, rooted_of_read h⟩
  · have hrows := script.expression_rows_perm.map fun row => (row.id, row.span)
    rw [List.map_map] at hrows
    rw [← labels_numbered, List.map_map]
    refine hrows.trans (.of_eq (List.map_congr_left fun node hnode => ?_))
    show (node.id, _) = (script.numberOf node.label, _)
    rw [numberOf_label h hnode]
    rfl
  · have hrows := script.terminals_perm.map fun row => (row.id, row.text, row.span)
    rwa [show script.terminalRows.map (fun row => (row.id, row.text, row.span)) = _ from
      script.terminalRows_map id] at hrows
  · intro e he
    obtain ⟨node, hnode, rfl, hparent⟩ := script.numbering.top e he
    exact ⟨_, hnumber node hnode, hparent⟩
  · intro e he child hchild
    rw [← labels_numbered] at he
    obtain ⟨node, hnode, rfl⟩ := List.mem_map.mp he
    obtain ⟨below, hbelow, rfl, hparent⟩ := script.numbering.part node hnode child hchild
    refine ⟨_, hnumber below hbelow, ?_⟩
    rw [numberOf_label h hnode]
    exact hparent
  · exact fun index token => exists_terminal_row h

/-- Named arguments, defaults, line breaks inside, and semicolons in and between expressions. -/
theorem table_mirrors_defaults :
    ∃ script, read "f <- function(x, y = 2) \x7b x; g(y,\n z = x$a) \x7d; ; -1 # end" = .ok script ∧
      script.table.Mirrors script := by
  obtain ⟨script, hread⟩ := exists_read_of_isOk
    (show (read "f <- function(x, y = 2) \x7b x; g(y,\n z = x$a) \x7d; ; -1 # end").isOk = true by
      decide +kernel)
  exact ⟨script, hread, table_mirrors hread⟩

end Script
end TypeDrift
