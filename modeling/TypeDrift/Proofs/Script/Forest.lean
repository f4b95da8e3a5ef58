import Mathlib.Data.List.Nodup
import TypeDrift.Proofs.Script.Hanging
import TypeDrift.Proofs.Script.Table

/-! # The trees of a script

The trees of which the rows of a parse table are the nodes, built from the expressions of a script and
not from its table (`Script.rowTrees`): below the row of an expression stand, from left to right, the
rows of its own tokens and of its parts.  A walk through these trees comes by the rows of the table,
each of them once (`Script.preorder_perm_rows`).

The table gives a token to the last expression around it that a walk over all expressions finds, and
the trees give it to the expression between whose parts it stands.  That these are the same is
`Script.tokenRows_split`: before a part and behind it the walk over that part counts for nothing.
-/
namespace TypeDrift

namespace Script

open TypeDrift.Tree

/-- The tokens with an index from `lo` up to `hi`, with their indices. -/
def indexed (script : Script) (lo hi : Nat) : List (Token × Nat) :=
  script.tokens.toList.zipIdx.extract lo hi

/-- The row of a token that belongs to the row `parent`. -/
def tokenRow (script : Script) (parent : Nat) (token : Token × Nat) : Row :=
  { id := token.2 + 1
    parent := parent
    name := terminalName (script.numbered.filterMap fun node => calleeToken? node.label) token.2
      token.1.kind
    text := token.1.text
    span := token.1.span
    terminal := true }

/-- The rows of the tokens that are written out from `lo` up to `hi`, each with its owner. -/
def tokenRows (script : Script) (owner : Nat → Nat) (lo hi : Nat) : List Row :=
  ((script.indexed lo hi).filter fun token => !token.1.isTrivia).map fun token =>
    script.tokenRow (owner token.2) token

/-- Trees on ranges that follow one another from `lo` up to `hi`, and between them the rows of the
tokens that are in none of the ranges. -/
def weave (script : Script) (parent hi : Nat) : (lo : Nat) → List (TokenRange × Tree Row) →
    List (Tree Row)
  | lo, [] => (script.tokenRows (fun _ => parent) lo hi).map leaf
  | lo, (range, tree) :: trees =>
    (script.tokenRows (fun _ => parent) lo range.start).map leaf ++ tree ::
      script.weave parent hi range.stop trees

/-- The tree of an expression: its row, and below it the trees of its parts and between them the rows
of its own tokens. -/
def rowTree (script : Script) (parent : Nat) (e : Expr) : Tree Row :=
  .node (script.expressionRow ⟨script.numberOf e, parent, e⟩)
    (script.weave (script.numberOf e) e.range.stop e.range.start
      (e.children.attach.map fun child =>
        (child.1.range, script.rowTree (script.numberOf e) child.1)))
termination_by sizeOf e
decreasing_by exact Expr.sizeOf_child_lt child.2

/-- The trees of some expressions, and between them the rows of the tokens that are in none. -/
def forest (script : Script) (parent lo hi : Nat) (es : List Expr) : List (Tree Row) :=
  script.weave parent hi lo (es.map fun e => (e.range, script.rowTree parent e))

/-- The trees of a script. -/
def rowTrees (script : Script) : List (Tree Row) :=
  script.forest 0 0 script.tokens.size script.expressions

section Forest
variable {script : Script} {parent lo mid hi : Nat} {e : Expr} {es : List Expr}

theorem rowTree_eq (script : Script) (parent : Nat) (e : Expr) :
    script.rowTree parent e = .node (script.expressionRow ⟨script.numberOf e, parent, e⟩)
      (script.forest (script.numberOf e) e.range.start e.range.stop e.children) := by
  rw [rowTree, forest]
  simp

theorem forest_cons (script : Script) (parent lo hi : Nat) (e : Expr) (es : List Expr) :
    script.forest parent lo hi (e :: es) =
      (script.tokenRows (fun _ => parent) lo e.range.start).map leaf ++
        script.rowTree parent e :: script.forest parent e.range.stop hi es := rfl

theorem preorder_forest_nil (script : Script) (parent lo hi : Nat) :
    preorderAll (script.forest parent lo hi []) = script.tokenRows (fun _ => parent) lo hi :=
  preorderAll_leaves _

theorem preorder_forest_cons (script : Script) (parent lo hi : Nat) (e : Expr) (es : List Expr) :
    preorderAll (script.forest parent lo hi (e :: es)) =
      script.tokenRows (fun _ => parent) lo e.range.start ++
        (script.expressionRow ⟨script.numberOf e, parent, e⟩ ::
          preorderAll (script.forest (script.numberOf e) e.range.start e.range.stop e.children) ++
        preorderAll (script.forest parent e.range.stop hi es)) := by
  rw [forest_cons, preorderAll_append, preorderAll_leaves, preorderAll, rowTree_eq, preorder]

/-! ## The tokens of a range -/

theorem indexed_append (hlo : lo ≤ mid) (hhi : mid ≤ hi) :
    script.indexed lo mid ++ script.indexed mid hi = script.indexed lo hi := by
  simp only [indexed, List.extract_eq_take_drop]
  rw [show hi - lo = (mid - lo) + (hi - mid) by omega, List.take_add, List.drop_drop,
    Nat.add_sub_cancel' hlo]

theorem indexed_all (script : Script) :
    script.indexed 0 script.tokens.size = script.tokens.toList.zipIdx := by
  rw [indexed, List.extract_eq_take_drop, List.drop_zero, List.take_of_length_le (by simp)]

theorem mem_indexed_iff {token : Token × Nat} : token ∈ script.indexed lo hi ↔
    lo ≤ token.2 ∧ token.2 < hi ∧ script.tokens[token.2]? = some token.1 := by
  rw [indexed, List.extract_eq_take_drop, List.mem_iff_getElem?]
  simp only [List.getElem?_take, List.getElem?_drop, List.getElem?_zipIdx, Array.getElem?_toList,
    Nat.zero_add]
  constructor
  · rintro ⟨offset, hoffset⟩
    split at hoffset
    · obtain ⟨token, htoken, rfl⟩ := Option.map_eq_some_iff.mp hoffset
      exact ⟨Nat.le_add_right _ _, by show lo + offset < hi; omega, htoken⟩
    · cases hoffset
  · rintro ⟨hlo, hhi, htoken⟩
    refine ⟨token.2 - lo, ?_⟩
    rw [if_pos (by omega), Nat.add_sub_cancel' hlo, htoken]
    rfl

theorem indexed_increasing (script : Script) (lo hi : Nat) :
    (script.indexed lo hi).Pairwise fun a b => a.2 < b.2 := by
  have hindices : (script.tokens.toList.zipIdx.map Prod.snd).Pairwise (· < ·) := by
    rw [List.zipIdx_map_snd]
    exact List.pairwise_lt_range' 1
  rw [indexed, List.extract_eq_take_drop]
  exact (List.pairwise_map.mp hindices).sublist ((List.take_sublist ..).trans (List.drop_sublist ..))

theorem terminal_of_mem_tokenRows {owner : Nat → Nat} {row : Row}
    (h : row ∈ script.tokenRows owner lo hi) : row.terminal = true := by
  obtain ⟨_, -, rfl⟩ := List.mem_map.mp h
  rfl

theorem parent_of_mem_tokenRows {row : Row}
    (h : row ∈ script.tokenRows (fun _ => parent) lo hi) : row.parent = parent := by
  obtain ⟨_, -, rfl⟩ := List.mem_map.mp h
  rfl

theorem mem_tokenRows {owner : Nat → Nat} {index : Nat} {token : Token} (hlo : lo ≤ index)
    (hhi : index < hi) (htoken : script.tokens[index]? = some token)
    (htrivia : token.isTrivia = false) :
    script.tokenRow (owner index) (token, index) ∈ script.tokenRows owner lo hi := by
  refine List.mem_map.mpr ⟨(token, index), List.mem_filter.mpr ⟨?_, by simp [htrivia]⟩, rfl⟩
  exact mem_indexed_iff.mpr ⟨hlo, hhi, htoken⟩

theorem tokenRows_append (owner : Nat → Nat) (hlo : lo ≤ mid) (hhi : mid ≤ hi) :
    script.tokenRows owner lo mid ++ script.tokenRows owner mid hi =
      script.tokenRows owner lo hi := by
  simp only [tokenRows]
  rw [← List.map_append, ← List.filter_append, indexed_append hlo hhi]

theorem tokenRows_congr {owner owner' : Nat → Nat}
    (h : ∀ index, lo ≤ index → index < hi → owner index = owner' index) :
    script.tokenRows owner lo hi = script.tokenRows owner' lo hi := by
  refine List.map_congr_left fun token htoken => ?_
  obtain ⟨hlo, hhi, -⟩ := mem_indexed_iff.mp (List.mem_of_mem_filter htoken)
  rw [h token.2 hlo hhi]

theorem terminalRows_eq (script : Script) :
    script.terminalRows = script.tokenRows (owner script.numbered) 0 script.tokens.size := by
  rw [terminalRows, tokenRows, indexed_all, ← List.filterMap_eq_map, List.filterMap_filter]
  congr 1
  funext token
  rw [terminalRow?]
  cases token.1.isTrivia <;> rfl

/-! ## The owners of tokens -/

/-- The walk for the owner of a token, begun with `parent`. -/
def ownerFrom (parent : Nat) (nodes : List (Numbered Expr)) (index : Nat) : Nat :=
  nodes.foldl (fun found node => if node.label.range.contains index then node.id else found) parent

theorem ownerFrom_append (parent : Nat) (nodes others : List (Numbered Expr)) (index : Nat) :
    ownerFrom parent (nodes ++ others) index = ownerFrom (ownerFrom parent nodes index) others index :=
  List.foldl_append ..

theorem ownerFrom_of_outside {nodes : List (Numbered Expr)} {index : Nat}
    (h : ∀ node ∈ nodes, node.label.range.contains index = false) :
    ownerFrom parent nodes index = parent := by
  induction nodes with
  | nil => rfl
  | cons node nodes ih =>
    obtain ⟨hnode, hnodes⟩ := List.forall_mem_cons.mp h
    have hstep : ownerFrom parent (node :: nodes) index =
        ownerFrom (if node.label.range.contains index then node.id else parent) nodes index := rfl
    rw [hstep, hnode, if_neg Bool.false_ne_true]
    exact ih hnodes

theorem contains_eq_false_of_laid {id index : Nat} {nodes : List (Numbered Expr)}
    (h : Numbering id parent es nodes) (hlaid : Expr.Laid script.lexemes lo hi es)
    (houtside : index < lo ∨ hi ≤ index) :
    ∀ node ∈ nodes, node.label.range.contains index = false := by
  intro node hnode
  have hwithin := hlaid.within_preorderAll node.label (h.labels_eq ▸ List.mem_map_of_mem hnode)
  rw [TokenRange.contains_eq_false_iff]
  omega

/-- Of the walk for the owner of a token only the part counts that comes by the expressions around
the token. -/
theorem tokenRows_split {id : Nat} {inner others : List (Numbered Expr)}
    (hlaid : Expr.Laid script.lexemes lo hi (e :: es))
    (hinner : Numbering (id + 1) id e.children inner)
    (hothers : Numbering (id + (inner.length + 1)) parent es others) :
    script.tokenRows (ownerFrom parent (⟨id, parent, e⟩ :: (inner ++ others))) lo hi =
      script.tokenRows (fun _ => parent) lo e.range.start ++
        (script.tokenRows (ownerFrom id inner) e.range.start e.range.stop ++
          script.tokenRows (ownerFrom parent others) e.range.stop hi) := by
  cases hlaid with
  | cons hstart htiled hrest =>
    have hnonempty := htiled.nonempty
    have hinner' {index : Nat} (houtside : index < e.range.start ∨ e.range.stop ≤ index) :=
      contains_eq_false_of_laid hinner htiled.laid_children houtside
    have hothers' {index : Nat} (houtside : index < e.range.stop ∨ hi ≤ index) :=
      contains_eq_false_of_laid hothers hrest houtside
    have htop (index : Nat) : ownerFrom parent (⟨id, parent, e⟩ :: (inner ++ others)) index =
        ownerFrom (ownerFrom (if e.range.contains index then id else parent) inner index) others
          index :=
      ownerFrom_append ..
    rw [← tokenRows_append _ hstart (Nat.le_trans (Nat.le_of_lt hnonempty) hrest.le),
      ← tokenRows_append _ (Nat.le_of_lt hnonempty) hrest.le]
    -- Left of the expression nothing counts, within it only its parts, behind it only the others.
    congr 1
    · refine tokenRows_congr fun index _ hindex => ?_
      rw [htop, ownerFrom_of_outside (hothers' (.inl (by omega))),
        ownerFrom_of_outside (hinner' (.inl hindex)), if_neg]
      rw [TokenRange.contains_iff]
      omega
    congr 1
    · refine tokenRows_congr fun index hindex hindex' => ?_
      rw [htop, ownerFrom_of_outside (hothers' (.inl hindex')), if_pos]
      exact TokenRange.contains_iff.mpr ⟨hindex, hindex'⟩
    · refine tokenRows_congr fun index hindex _ => ?_
      rw [htop, ownerFrom_of_outside (hinner' (.inr hindex)), if_neg]
      rw [TokenRange.contains_iff]
      omega

/-! ## The rows of the trees -/

section Numbered
variable {id : Nat} {nodes : List (Numbered Expr)}

/-- The walk comes by the rows of the expressions. -/
theorem expressions_forest (h : Numbering id parent es nodes)
    (hnumber : ∀ node ∈ nodes, script.numberOf node.label = node.id) (lo hi : Nat) :
    ((preorderAll (script.forest parent lo hi es)).filter fun row => !row.terminal) =
      nodes.map script.expressionRow := by
  have htokens (owner : Nat → Nat) (lo hi : Nat) :
      ((script.tokenRows owner lo hi).filter fun row => !row.terminal) = [] :=
    List.filter_eq_nil_iff.mpr fun row hrow => by simp [terminal_of_mem_tokenRows hrow]
  induction h generalizing lo hi with
  | nil => rw [preorder_forest_nil, htokens, List.map_nil]
  | @cons id parent e es inner others _ _ ihinner ihothers =>
    obtain ⟨he, hrest⟩ := List.forall_mem_cons.mp hnumber
    obtain ⟨hinner, hothers⟩ := List.forall_mem_append.mp hrest
    rw [preorder_forest_cons, List.filter_append, htokens, List.nil_append, List.cons_append,
      List.filter_cons_of_pos rfl, List.filter_append, show script.numberOf e = id from he,
      ihinner hinner, ihothers hothers, List.map_cons, List.map_append]

/-- And by the rows of the tokens, each of which names its owner. -/
theorem tokens_forest (h : Numbering id parent es nodes)
    (hnumber : ∀ node ∈ nodes, script.numberOf node.label = node.id)
    (hlaid : Expr.Laid script.lexemes lo hi es) :
    (preorderAll (script.forest parent lo hi es)).filter Row.terminal =
      script.tokenRows (ownerFrom parent nodes) lo hi := by
  have htokens (owner : Nat → Nat) (lo hi : Nat) :
      (script.tokenRows owner lo hi).filter Row.terminal = script.tokenRows owner lo hi :=
    List.filter_eq_self.mpr fun row hrow => terminal_of_mem_tokenRows hrow
  induction h generalizing lo hi with
  | nil => rw [preorder_forest_nil, htokens]; rfl
  | @cons id parent e es inner others hinner hothers ihinner ihothers =>
    obtain ⟨he, hrest⟩ := List.forall_mem_cons.mp hnumber
    obtain ⟨hinner', hothers'⟩ := List.forall_mem_append.mp hrest
    rw [tokenRows_split hlaid hinner hothers]
    cases hlaid with
    | cons _ htiled hlaid =>
      rw [preorder_forest_cons, List.filter_append, htokens, List.cons_append,
        List.filter_cons_of_neg Bool.false_ne_true, List.filter_append,
        show script.numberOf e = id from he, ihinner hinner' htiled.laid_children,
        ihothers hothers' hlaid]

/-- Something hangs from every expression, if only the token it begins with. -/
theorem forest_ne_nil (h : e.LaidOut script.lexemes) (parent : Nat) :
    script.forest parent e.range.start e.range.stop e.children ≠ [] := by
  cases hchildren : e.children with
  | nil =>
    obtain ⟨token, htoken, htrivia, -⟩ := exists_token_of_writtenAt h.first
    have hmem : script.tokenRow parent (token, e.range.start) ∈
        script.tokenRows (fun _ => parent) e.range.start e.range.stop :=
      mem_tokenRows (Nat.le_refl _) h.nonempty htoken htrivia
    exact fun hnil => List.ne_nil_of_mem hmem (List.map_eq_nil_iff.mp hnil)
  | cons child children =>
    rw [forest_cons]
    simp

/-- The rows of the trees hang together as the trees do. -/
theorem hanging_forest (h : Numbering id parent es nodes)
    (hnumber : ∀ node ∈ nodes, script.numberOf node.label = node.id)
    (hlaid : ∀ node ∈ nodes, node.label.LaidOut script.lexemes) (lo hi : Nat) :
    Row.Hanging parent (script.forest parent lo hi es) := by
  have htokens (parent lo hi : Nat) :
      Row.Hanging parent ((script.tokenRows (fun _ => parent) lo hi).map leaf) :=
    .leaves fun row hrow => ⟨parent_of_mem_tokenRows hrow, terminal_of_mem_tokenRows hrow⟩
  induction h generalizing lo hi with
  | nil => exact htokens _ lo hi
  | @cons id parent e es inner others _ _ ihinner ihothers =>
    obtain ⟨he, hrest⟩ := List.forall_mem_cons.mp hnumber
    obtain ⟨hinner, hothers⟩ := List.forall_mem_append.mp hrest
    obtain ⟨hlaid, hrest'⟩ := List.forall_mem_cons.mp hlaid
    obtain ⟨hinner', hothers'⟩ := List.forall_mem_append.mp hrest'
    rw [forest_cons, rowTree_eq, show script.numberOf e = id from he]
    refine (htokens parent lo _).append (.cons rfl ?_ (ihinner hinner hinner' _ _)
      (ihothers hothers hothers' _ _))
    exact (List.isEmpty_eq_false_iff.mpr (forest_ne_nil hlaid id)).symm

end Numbered
end Forest

variable {source : String} {script : Script}

theorem laid_tokens (h : read source = .ok script) :
    Expr.Laid script.lexemes 0 script.tokens.size script.expressions :=
  (laid_of_read h).1.mono (Nat.le_refl _) (Nat.sub_le _ _)

theorem hanging_rowTrees (h : read source = .ok script) : Row.Hanging 0 script.rowTrees := by
  refine hanging_forest script.numbering (fun _ => numberOf_label h) (fun node hnode => ?_) _ _
  exact laidOut_of_read h node.label (script.labels_numbered ▸ List.mem_map_of_mem hnode)

theorem terminals_rowTrees (h : read source = .ok script) :
    (preorderAll script.rowTrees).filter Row.terminal = script.terminalRows := by
  rw [terminalRows_eq]
  exact tokens_forest script.numbering (fun _ => numberOf_label h) (laid_tokens h)

/-- **A walk through the trees of a script comes by the rows of its table**, each of them once. -/
theorem preorder_perm_rows (h : read source = .ok script) :
    (preorderAll script.rowTrees).Perm script.table.rows := by
  have hexpressions : ((preorderAll script.rowTrees).filter fun row => !row.terminal) =
      script.numbered.map script.expressionRow :=
    expressions_forest script.numbering (fun _ => numberOf_label h) _ _
  refine (List.filter_append_perm Row.terminal _).symm.trans (.trans ?_ script.rows_perm.symm)
  rw [hexpressions, terminals_rowTrees h]
  exact List.perm_append_comm

end Script
end TypeDrift
