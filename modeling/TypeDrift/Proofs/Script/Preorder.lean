import TypeDrift.Proofs.Script.Forest

/-! # The order of a parse table

The rows of a parse table are sorted by the places where they begin and end.  This module shows what
the sorting comes to (`Script.table_preordered`): the table is a walk through the trees of the script,
each row before what is below it, and from left to right.

A walk through the trees comes by the rows in the order that they are sorted by, and never by two at
once (`Script.forest_before`); so the sorted list cannot be any other.  What stands further right
begins at a later token and so at a later place.  What is below an expression begins with it or later
and ends with it or earlier; where both places are the same it is the row of a token, since no part of
an expression takes up the whole of it.
-/
namespace TypeDrift

namespace Position

variable {p q : Position}

theorem not_before_self (p : Position) : ¬ p.Before p := by
  simp only [Before]
  omega

theorem before_trichotomy (p q : Position) : p.Before q ∨ p = q ∨ q.Before p := by
  obtain ⟨line, column⟩ := p
  obtain ⟨line', column'⟩ := q
  simp only [Before, Position.mk.injEq]
  omega

theorem le_iff_before : p.le q = true ↔ p.Before q ∨ p = q := by
  obtain ⟨line, column⟩ := p
  obtain ⟨line', column'⟩ := q
  simp only [le_iff, Before, Position.mk.injEq]
  omega

end Position

/-! ## The order of rows -/

namespace Row

open Position

variable {a b c : Row}

/-- What rows are sorted by. -/
def key (row : Row) : Position × Position × Bool :=
  (row.span.start, row.span.stop, row.terminal)

/-- Strictly earlier in the order of rows. -/
def Before (a b : Row) : Prop :=
  a.span.start.Before b.span.start ∨ a.span.start = b.span.start ∧
    (b.span.stop.Before a.span.stop ∨ a.span.stop = b.span.stop ∧
      a.terminal = false ∧ b.terminal = true)

theorem key_eq_iff : a.key = b.key ↔
    a.span.start = b.span.start ∧ a.span.stop = b.span.stop ∧ a.terminal = b.terminal := by
  simp only [key, Prod.mk.injEq]

theorem Before.trans (h : a.Before b) (h' : b.Before c) : a.Before c := by
  unfold Before at *
  rcases h with h | ⟨hstart, h⟩
  · rcases h' with h' | ⟨hstart', -⟩
    · exact .inl (h.trans h')
    · exact .inl (hstart' ▸ h)
  · rcases h' with h' | ⟨hstart', h'⟩
    · exact .inl (hstart ▸ h')
    refine .inr ⟨hstart.trans hstart', ?_⟩
    rcases h with h | ⟨hstop, ha, hb⟩
    · rcases h' with h' | ⟨hstop', -⟩
      · exact .inl (h'.trans h)
      · exact .inl (hstop' ▸ h)
    · rcases h' with h' | ⟨-, hb', -⟩
      · exact .inl (hstop ▸ h')
      · cases hb.symm.trans hb'

theorem not_before_of_key_eq (h : a.key = b.key) : ¬ a.Before b := by
  obtain ⟨hstart, hstop, hterminal⟩ := key_eq_iff.mp h
  rintro (hbefore | ⟨-, hbefore | ⟨-, ha, hb⟩⟩)
  · exact not_before_self _ (hstart ▸ hbefore)
  · exact not_before_self _ (hstop ▸ hbefore)
  · rw [ha, hb] at hterminal
    cases hterminal

theorem Before.of_key_eq (h : a.Before b) (ha : a.key = c.key) : c.Before b := by
  obtain ⟨hstart, hstop, hterminal⟩ := key_eq_iff.mp ha
  unfold Before at *
  rwa [← hstart, ← hstop, ← hterminal]

theorem before_trichotomy (a b : Row) : a.Before b ∨ a.key = b.key ∨ b.Before a := by
  rcases Position.before_trichotomy a.span.start b.span.start with hstart | hstart | hstart
  · exact .inl (.inl hstart)
  · rcases Position.before_trichotomy a.span.stop b.span.stop with hstop | hstop | hstop
    · exact .inr (.inr (.inr ⟨hstart.symm, .inl hstop⟩))
    · have hboth {a b : Row} (hstart : a.span.start = b.span.start)
          (hstop : a.span.stop = b.span.stop) (ha : a.terminal = false) (hb : b.terminal = true) :
          a.Before b := .inr ⟨hstart, .inr ⟨hstop, ha, hb⟩⟩
      cases ha : a.terminal <;> cases hb : b.terminal
      · exact .inr (.inl (key_eq_iff.mpr ⟨hstart, hstop, ha.trans hb.symm⟩))
      · exact .inl (hboth hstart hstop ha hb)
      · exact .inr (.inr (hboth hstart.symm hstop.symm hb ha))
      · exact .inr (.inl (key_eq_iff.mpr ⟨hstart, hstop, ha.trans hb.symm⟩))
    · exact .inl (.inr ⟨hstart, .inl hstop⟩)
  · exact .inr (.inr (.inl hstart))

/-- Rows are sorted by key. -/
theorem le_iff : a.le b = true ↔ a.Before b ∨ a.key = b.key := by
  rw [le, key_eq_iff, Before]
  by_cases hstart : a.span.start = b.span.start
  · rw [if_pos hstart]
    by_cases hstop : a.span.stop = b.span.stop
    · rw [if_pos hstop]
      cases a.terminal <;> cases b.terminal <;> simp [hstart, hstop, not_before_self]
    · simp [hstart, hstop, Ne.symm hstop, le_iff_before, not_before_self]
  · simp [hstart, le_iff_before]

theorem le_trans (h : a.le b = true) (h' : b.le c = true) : a.le c = true := by
  rw [le_iff] at *
  rcases h' with h' | heq'
  · rcases h with h | heq
    · exact .inl (h.trans h')
    · exact .inl (h'.of_key_eq heq.symm)
  · obtain ⟨hstart, hstop, hterminal⟩ := key_eq_iff.mp heq'
    rwa [← heq', Before, ← hstart, ← hstop, ← hterminal]

theorem le_total (a b : Row) : (a.le b || b.le a) = true := by
  rw [Bool.or_eq_true, le_iff, le_iff]
  rcases before_trichotomy a b with h | h | h
  · exact .inl (.inl h)
  · exact .inl (.inr h)
  · exact .inr (.inl h)

theorem key_eq_of_le (h : a.le b = true) (h' : b.le a = true) : a.key = b.key := by
  rcases le_iff.mp h with hbefore | heq
  · rcases le_iff.mp h' with hbefore' | heq
    · exact absurd (hbefore.trans hbefore') (not_before_of_key_eq rfl)
    · exact heq.symm
  · exact heq

end Row

namespace Script

open TypeDrift.Tree

variable {source : String} {script : Script}

/-! ## Rows on ranges of tokens -/

theorem stop_before_stop (h : read source = .ok script) {i j : Nat} (hij : i < j)
    (hj : j < script.tokens.size) :
    (spanAt script.tokens i).stop.Before (spanAt script.tokens j).stop := by
  obtain ⟨row, hscan, htokens, -⟩ := exists_row_of_read h
  have hbefore := (List.pairwise_iff_getElem.mp (sound_of_read h).ordered i j
    (by simpa using Nat.lt_trans hij hj) (by simpa using hj) hij).2
  have hmem : script.tokens.toList[j] ∈ row ++ [Token.endAt (.behind source.toList)] := by
    have htoList : script.tokens.toList = row ++ [Token.endAt (.behind source.toList)] := by
      rw [htokens]
    exact htoList ▸ List.getElem_mem _
  rw [spanAt_eq_span (Array.getElem?_eq_getElem (Nat.lt_trans hij hj)),
    spanAt_eq_span (Array.getElem?_eq_getElem hj)]
  rcases Token.scanFrom_start_le_stop hscan _ hmem with heq | hstop
  · exact heq ▸ hbefore
  · exact hbefore.trans hstop

/-- A row stands where these tokens do. -/
structure StandsOn (script : Script) (row : Row) (range : TokenRange) : Prop where
  span : row.span = script.spanOf range
  nonempty : range.start < range.stop
  stop_le : range.stop ≤ script.tokens.size

/-- A row stands somewhere from the token `lo` up to the token `hi`. -/
def StandsWithin (script : Script) (lo hi : Nat) (row : Row) : Prop :=
  ∃ range, script.StandsOn row range ∧ lo ≤ range.start ∧ range.stop ≤ hi

variable {a b : Row} {r s : TokenRange} {lo mid hi : Nat}

theorem StandsWithin.mono {lo' hi' : Nat} (h : script.StandsWithin lo hi a) (hlo : lo' ≤ lo)
    (hhi : hi ≤ hi') : script.StandsWithin lo' hi' a := by
  obtain ⟨range, hstands, hstart, hstop⟩ := h
  exact ⟨range, hstands, Nat.le_trans hlo hstart, Nat.le_trans hstop hhi⟩

/-- Of rows on tokens that follow one another the left one comes first. -/
theorem StandsWithin.before (h : read source = .ok script) (ha : script.StandsWithin lo mid a)
    (hb : script.StandsWithin mid hi b) : a.Before b := by
  obtain ⟨r, ha, -, hr⟩ := ha
  obtain ⟨s, hb, hs, -⟩ := hb
  refine .inl ?_
  rw [ha.span, hb.span]
  have hr' := ha.nonempty
  have hs' := hb.nonempty
  have hsize := hb.stop_le
  exact start_before_start (sound_of_read h).ordered (by omega) (by omega)

/-- Of rows one on tokens of the other the outer one comes first. -/
theorem StandsOn.before_of_sub (h : read source = .ok script) (ha : script.StandsOn a r)
    (hb : script.StandsOn b s) (hsub : s.Sub r)
    (hne : s ≠ r ∨ a.terminal = false ∧ b.terminal = true) : a.Before b := by
  have hr := ha.nonempty
  have hs := hb.nonempty
  have hsize := ha.stop_le
  obtain ⟨hstart, hstop⟩ := hsub
  rw [Row.Before, ha.span, hb.span]
  rcases Nat.lt_or_eq_of_le hstart with hlt | heq
  · exact .inl (start_before_start (sound_of_read h).ordered hlt (by omega))
  refine .inr ⟨by rw [spanOf, spanOf, heq], ?_⟩
  rcases Nat.lt_or_eq_of_le hstop with hlt | heq'
  · exact .inl (stop_before_stop h (by omega) (by omega))
  · have hrange : s = r := by
      cases r
      cases s
      exact TokenRange.mk.injEq .. ▸ ⟨heq.symm, heq'⟩
    exact .inr ⟨by rw [hrange], hne.resolve_left (absurd hrange)⟩

/-! ## The walk through the trees -/

section Forest
variable {id parent lo hi : Nat} {e : Expr} {es : List Expr} {nodes : List (Numbered Expr)}

theorem standsOn_tokenRow {token : Token × Nat} (htoken : token ∈ script.indexed lo hi)
    (parent : Nat) : script.StandsOn (script.tokenRow parent token) ⟨token.2, token.2 + 1⟩ := by
  obtain ⟨-, -, hget⟩ := mem_indexed_iff.mp htoken
  obtain ⟨hlt, -⟩ := Array.getElem?_eq_some_iff.mp hget
  refine ⟨?_, Nat.lt_succ_self _, hlt⟩
  show token.1.span = ⟨_, _⟩
  rw [Nat.add_sub_cancel, spanAt_eq_span hget]

theorem standsWithin_tokenRows {owner : Nat → Nat} :
    ∀ row ∈ script.tokenRows owner lo hi, script.StandsWithin lo hi row := by
  refine List.forall_mem_map.mpr fun token htoken => ?_
  have hmem := List.mem_of_mem_filter htoken
  obtain ⟨hlo, hhi, -⟩ := mem_indexed_iff.mp hmem
  exact ⟨_, standsOn_tokenRow hmem _, hlo, hhi⟩

theorem tokenRows_before (h : read source = .ok script) (owner : Nat → Nat) (lo hi : Nat) :
    (script.tokenRows owner lo hi).Pairwise Row.Before := by
  refine List.pairwise_map.mpr (List.Pairwise.imp_of_mem ?_
    ((script.indexed_increasing lo hi).sublist List.filter_sublist))
  intro first second hfirst hsecond hlt
  have hfirst := standsOn_tokenRow (List.mem_of_mem_filter hfirst) (owner first.2)
  have hsecond := standsOn_tokenRow (List.mem_of_mem_filter hsecond) (owner second.2)
  exact StandsWithin.before h ⟨_, hfirst, Nat.le_refl _, Nat.le_refl _⟩
    ⟨_, hsecond, hlt, Nat.le_refl _⟩

/-- The rows of the trees are those of tokens and of expressions, on the range of the trees. -/
theorem standsOn_forest (h : Numbering id parent es nodes)
    (hnumber : ∀ node ∈ nodes, script.numberOf node.label = node.id)
    (hlaid : Expr.Laid script.lexemes lo hi es) (hhi : hi ≤ script.tokens.size) :
    ∀ row ∈ preorderAll (script.forest parent lo hi es), script.StandsWithin lo hi row ∧
      (row.terminal = true ∨ ∃ node ∈ Expr.preorderAll es, script.StandsOn row node.range) := by
  intro row hrow
  by_cases hterminal : row.terminal = true
  · have hrow := List.mem_filter.mpr ⟨hrow, hterminal⟩
    rw [tokens_forest h hnumber hlaid] at hrow
    exact ⟨standsWithin_tokenRows row hrow, .inl hterminal⟩
  · have hrow : row ∈ (preorderAll (script.forest parent lo hi es)).filter fun row => !row.terminal :=
      List.mem_filter.mpr ⟨hrow, by simp [hterminal]⟩
    rw [expressions_forest h hnumber] at hrow
    obtain ⟨node, hnode, rfl⟩ := List.mem_map.mp hrow
    have hmem : node.label ∈ Expr.preorderAll es := h.labels_eq ▸ List.mem_map_of_mem hnode
    obtain ⟨hlo, hhi'⟩ := hlaid.within_preorderAll _ hmem
    obtain ⟨e, he, hmem'⟩ := List.mem_flatMap.mp hmem
    have hnonempty := ((hlaid.tiled e he).of_mem_preorder hmem').nonempty
    have hstands : script.StandsOn (script.expressionRow node) node.label.range :=
      ⟨rfl, hnonempty, Nat.le_trans hhi' hhi⟩
    exact ⟨⟨_, hstands, hlo, hhi'⟩, .inr ⟨_, hmem, hstands⟩⟩

/-- The row of an expression comes before everything that hangs from it. -/
theorem expression_before (hread : read source = .ok script)
    (h : Numbering (id + 1) id e.children nodes)
    (hnumber : ∀ node ∈ nodes, script.numberOf node.label = node.id)
    (htiled : e.Tiled script.lexemes) (hstop : e.range.stop ≤ script.tokens.size) (parent : Nat) :
    ∀ row ∈ preorderAll (script.forest id e.range.start e.range.stop e.children),
      (script.expressionRow ⟨id, parent, e⟩).Before row := by
  intro row hrow
  have htop : script.StandsOn (script.expressionRow ⟨id, parent, e⟩) e.range :=
    ⟨rfl, htiled.nonempty, hstop⟩
  obtain ⟨⟨range, hstands, hsub⟩, hkind⟩ :=
    standsOn_forest h hnumber htiled.laid_children hstop row hrow
  rcases hkind with hterminal | ⟨node, hnode, hstands'⟩
  · exact htop.before_of_sub hread hstands hsub (.inr ⟨rfl, hterminal⟩)
  · obtain ⟨hlaid, hparts⟩ := Expr.tiled_iff.mp htiled
    obtain ⟨child, hchild, hmem⟩ := List.mem_flatMap.mp hnode
    have hsub' := (hparts child hchild).sub node hmem
    exact htop.before_of_sub hread hstands' (hsub'.trans (hlaid.inside child hchild))
      (.inl (hlaid.range_ne hchild hsub'))

/-- The walk comes by the rows in their order. -/
theorem forest_before (hread : read source = .ok script) (h : Numbering id parent es nodes)
    (hnumber : ∀ node ∈ nodes, script.numberOf node.label = node.id)
    (hlaid : Expr.Laid script.lexemes lo hi es) (hhi : hi ≤ script.tokens.size) :
    (preorderAll (script.forest parent lo hi es)).Pairwise Row.Before := by
  induction h generalizing lo hi with
  | nil =>
    rw [preorder_forest_nil]
    exact tokenRows_before hread _ lo hi
  | @cons id parent e es inner others hinner hothers ihinner ihothers =>
    obtain ⟨he, hrest⟩ := List.forall_mem_cons.mp hnumber
    obtain ⟨hinner', hothers'⟩ := List.forall_mem_append.mp hrest
    cases hlaid with
    | cons hstart htiled hlaid =>
      have hstop : e.range.stop ≤ script.tokens.size := Nat.le_trans hlaid.le hhi
      have hpart : ∀ row ∈ script.expressionRow ⟨id, parent, e⟩ ::
          preorderAll (script.forest id e.range.start e.range.stop e.children),
          script.StandsWithin e.range.start e.range.stop row :=
        List.forall_mem_cons.mpr ⟨⟨_, ⟨rfl, htiled.nonempty, hstop⟩, TokenRange.Sub.refl _⟩, fun row hrow =>
          (standsOn_forest hinner hinner' htiled.laid_children hstop row hrow).1⟩
      have hbehind : ∀ row ∈ preorderAll (script.forest parent e.range.stop hi es),
          script.StandsWithin e.range.stop hi row := fun row hrow =>
        (standsOn_forest hothers hothers' hlaid hhi row hrow).1
      have hrow : ∀ row ∈ script.expressionRow ⟨id, parent, e⟩ ::
          preorderAll (script.forest id e.range.start e.range.stop e.children) ++
          preorderAll (script.forest parent e.range.stop hi es),
          script.StandsWithin e.range.start hi row :=
        List.forall_mem_append.mpr
          ⟨fun row hrow => (hpart row hrow).mono (Nat.le_refl _) hlaid.le,
            fun row hrow => (hbehind row hrow).mono (Nat.le_of_lt htiled.nonempty) (Nat.le_refl _)⟩
      rw [preorder_forest_cons, show script.numberOf e = id from he]
      -- The tokens before the expression, its row and what hangs from it, and what is behind it.
      refine List.pairwise_append.mpr ⟨tokenRows_before hread _ _ _, List.pairwise_append.mpr
        ⟨.cons (expression_before hread hinner hinner' htiled hstop parent)
          (ihinner hinner' htiled.laid_children hstop), ihothers hothers' hlaid hhi, ?_⟩, ?_⟩
      · exact fun first hfirst second hsecond =>
          (hpart first hfirst).before hread (hbehind second hsecond)
      · exact fun first hfirst second hsecond =>
          (standsWithin_tokenRows first hfirst).before hread (hrow second hsecond)

end Forest

/-- The walk through the trees of a script comes by the rows in their order. -/
theorem rowTrees_before (h : read source = .ok script) :
    (preorderAll script.rowTrees).Pairwise Row.Before :=
  forest_before h script.numbering (fun _ => numberOf_label h) (laid_tokens h) (Nat.le_refl _)

theorem keys_nodup (h : read source = .ok script) :
    (script.table.rows.map Row.key).Nodup := by
  refine ((preorder_perm_rows h).map Row.key).nodup_iff.mp ?_
  exact List.pairwise_map.mpr ((rowTrees_before h).imp fun hbefore heq =>
    Row.not_before_of_key_eq heq hbefore)

/-- Sorted by key, the rows are those that the walk comes by. -/
theorem rows_eq (h : read source = .ok script) :
    script.table.rows = preorderAll script.rowTrees := by
  have hsorted : script.table.rows.Pairwise fun a b => a.le b = true := by
    refine List.pairwise_mergeSort ?_ ?_ _
    · exact fun _ _ _ => Row.le_trans
    · exact fun _ _ => Row.le_total _ _
  have hperm := (preorder_perm_rows h).symm
  refine hperm.eq_of_pairwise (fun a b ha hb hab hba => ?_) hsorted
    ((rowTrees_before h).imp fun hbefore => Row.le_iff.mpr (.inl hbefore))
  exact List.inj_on_of_nodup_map (keys_nodup h) ha (hperm.mem_iff.mpr hb) (Row.key_eq_of_le hab hba)

/-- The rows of tokens are in the order of the tokens. -/
theorem terminals_eq (h : read source = .ok script) :
    script.table.terminals =
      script.tokenRows (owner script.numbered) 0 script.tokens.size := by
  rw [Table.terminals, rows_eq h, terminals_rowTrees h, terminalRows_eq]

end Script

/-- A table lists the rows of a script as a walk through its trees comes by them, each row before what
is below it. -/
structure Table.Preordered (table : Table) (script : Script) : Prop where
  /-- In the trees every row names the one it hangs from. -/
  hanging : Row.Hanging 0 script.rowTrees
  /-- The leaves of the trees are the rows of tokens. -/
  leaves : Tree.leavesAll script.rowTrees = table.terminals
  walk : table.rows = Tree.preorderAll script.rowTrees
  keys : (table.rows.map Row.key).Nodup
  /-- What is below a row is one block, right behind it. -/
  block : ∀ before row behind, table.rows = before ++ row :: behind →
    ∃ inside rest, behind = inside ++ rest ∧ (∀ other ∈ inside, table.Below row other) ∧
      ∀ other ∈ before ++ row :: rest, ¬ table.Below row other
  /-- The rows of tokens stand in the order of the tokens. -/
  terminals : (table.terminals.map fun row => (row.id, row.text, row.span)) =
    (script.tokens.toList.zipIdx.filter fun token =>
      token.1.kind ≠ .newline ∧ token.1.kind ≠ .endOfInput).map fun token =>
        (token.2 + 1, token.1.text, token.1.span)

namespace Script

variable {source : String} {script : Script}

/-- **The rows of a parse table are sorted into the order of the tree**: the table is the walk through
the trees of the script that comes by each row before what is below it. No two rows are sorted by one
key; what is below a row is one block right behind it; and the rows of tokens are in the order of the
tokens. -/
theorem table_preordered (h : read source = .ok script) : script.table.Preordered script := by
  have hwalk := rows_eq h
  have hterminals : script.table.terminals = script.terminalRows := by
    rw [Table.terminals, hwalk, terminals_rowTrees h]
  refine ⟨hanging_rowTrees h, ?_, hwalk, keys_nodup h, fun before row behind hcut => ?_, ?_⟩
  · rw [(hanging_rowTrees h).leavesAll_eq, Table.terminals, hwalk]
  · exact (hanging_rowTrees h).exists_block hwalk script.ids_nodup (fun _ => id_pos) hcut
  · rw [hterminals]
    exact script.terminalRows_map id

/-- Expressions that begin and end at one place with their parts, a string over two lines, and
expressions and semicolons one behind the other. -/
theorem table_preordered_lines :
    ∃ script, read "f(-x, 'a
b')$c; (y)
{
; 1 -> z }" = .ok script ∧
      script.table.Preordered script := by
  obtain ⟨script, hread⟩ := exists_read_of_isOk
    (show (read "f(-x, 'a
b')$c; (y)
{
; 1 -> z }").isOk = true by decide +kernel)
  exact ⟨script, hread, table_preordered hread⟩

end Script
end TypeDrift
