import Mathlib.Data.List.Nodup
import Mathlib.Logic.Relation
import TypeDrift.Script.Table

/-! # Trees of rows

The rows of a parse table name each other by number.  This module is about trees of rows in which
every row names the one it hangs from (`Row.Hanging`), and about a table whose rows are a walk through
such trees: what is below a row, by the numbers that the rows give, is one block of the table, right
behind the row (`Row.Hanging.exists_block`).
-/
namespace TypeDrift

namespace Tree
variable {α : Type}

mutual

/-- The labels of the nodes without branches. -/
def leaves : Tree α → List α
  | node label [] => [label]
  | node _ (branch :: branches) => branch.leaves ++ leavesAll branches

/-- The labels of the nodes without branches, one tree after the other. -/
def leavesAll : List (Tree α) → List α
  | [] => []
  | tree :: trees => tree.leaves ++ leavesAll trees

end

/-- A tree that is a single node. -/
def leaf (label : α) : Tree α := .node label []

theorem preorderAll_append (trees trees' : List (Tree α)) :
    preorderAll (trees ++ trees') = preorderAll trees ++ preorderAll trees' := by
  induction trees with
  | nil => rfl
  | cons tree trees ih => rw [List.cons_append, preorderAll, preorderAll, ih, List.append_assoc]

theorem preorderAll_leaves (labels : List α) : preorderAll (labels.map leaf) = labels := by
  induction labels with
  | nil => rfl
  | cons label labels ih =>
    rw [List.map_cons, preorderAll, ih, leaf, preorder, preorderAll, List.singleton_append]

end Tree

/-- Trees of rows, each row with the number of the row it hangs from. What nothing hangs from is the
row of a token. -/
inductive Row.Hanging : (parent : Nat) → List (Tree Row) → Prop
  | nil {parent : Nat} : Hanging parent []
  | cons {parent : Nat} {row : Row} {branches trees : List (Tree Row)}
      (hparent : row.parent = parent) (hleaf : row.terminal = branches.isEmpty)
      (hbranches : Hanging row.id branches) (htrees : Hanging parent trees) :
      Hanging parent (.node row branches :: trees)

/-- A row hangs from `parent` or from one of these rows. -/
def Row.HangsAmong (parent : Nat) (rows : List Row) (row : Row) : Prop :=
  row.parent = parent ∨ ∃ above ∈ rows, row.parent = above.id

/-- The second row is below the first one: its parents lead there. -/
def Table.Below (table : Table) : Row → Row → Prop :=
  Relation.TransGen fun above row => row ∈ table.rows ∧ row.parent = above.id

namespace Row

open TypeDrift.Tree

variable {parent : Nat} {rows rows' : List Row} {row : Row} {trees trees' : List (Tree Row)}

theorem HangsAmong.mono (h : HangsAmong parent rows row) (hsub : rows ⊆ rows') :
    HangsAmong parent rows' row :=
  h.imp_right fun ⟨above, habove, heq⟩ => ⟨above, hsub habove, heq⟩

/-- What hangs from a row or among others hangs among all of them. -/
theorem HangsAmong.of_mem {above : Row} (h : HangsAmong above.id rows row) (habove : above ∈ rows')
    (hsub : rows ⊆ rows') : HangsAmong parent rows' row := by
  rcases h with heq | ⟨other, hother, heq⟩
  · exact .inr ⟨above, habove, heq⟩
  · exact .inr ⟨other, hsub hother, heq⟩

namespace Hanging

theorem append (h : Hanging parent trees) (h' : Hanging parent trees') :
    Hanging parent (trees ++ trees') := by
  induction h with
  | nil => exact h'
  | cons hparent hleaf hbranches _ _ ih => exact .cons hparent hleaf hbranches (ih h')

/-- Single nodes, the rows of tokens. -/
theorem leaves (h : ∀ row ∈ rows, row.parent = parent ∧ row.terminal = true) :
    Hanging parent (rows.map leaf) := by
  induction rows with
  | nil => exact .nil
  | cons row rows ih =>
    obtain ⟨⟨hparent, hterminal⟩, hrows⟩ := List.forall_mem_cons.mp h
    exact .cons hparent hterminal .nil (ih hrows)

/-- Every row hangs from the one that all hang from or from one of the others. -/
theorem hangsAmong (h : Hanging parent trees) :
    ∀ row ∈ preorderAll trees, HangsAmong parent (preorderAll trees) row := by
  induction h with
  | nil => exact nofun
  | @cons parent top branches trees htop _ _ _ ihbranches ihtrees =>
    rw [preorderAll, preorder]
    refine List.forall_mem_append.mpr ⟨List.forall_mem_cons.mpr ⟨.inl htop, ?_⟩, ?_⟩
    · intro row hrow
      exact (ihbranches row hrow).of_mem (List.mem_append_left _ List.mem_cons_self) (by grind)
    · exact fun row hrow => (ihtrees row hrow).mono (List.subset_append_right _ _)

/-- What hangs from a row, at any depth, is below it. -/
theorem below_of_mem {table : Table} {above : Row} (h : Hanging parent trees)
    (hparent : parent = above.id) (hmem : ∀ row ∈ preorderAll trees, row ∈ table.rows) :
    ∀ row ∈ preorderAll trees, table.Below above row := by
  induction h generalizing above with
  | nil => exact nofun
  | @cons parent top branches trees htop _ _ _ ihbranches ihtrees =>
    rw [preorderAll, preorder] at hmem ⊢
    obtain ⟨hbranch, htrees⟩ := List.forall_mem_append.mp hmem
    obtain ⟨hrow, hbranches⟩ := List.forall_mem_cons.mp hbranch
    have hbelow : table.Below above top := .single ⟨hrow, htop.trans hparent⟩
    refine List.forall_mem_append.mpr ⟨List.forall_mem_cons.mpr ⟨hbelow, fun row hrow => ?_⟩,
      ihtrees hparent htrees⟩
    exact .trans hbelow (ihbranches rfl hbranches row hrow)

theorem leavesAll_eq (h : Hanging parent trees) :
    leavesAll trees = (preorderAll trees).filter Row.terminal := by
  induction h with
  | nil => rfl
  | @cons parent row branches trees _ hleaf _ _ ihbranches ihtrees =>
    rw [leavesAll, preorderAll, List.filter_append, ← ihtrees, preorder]
    congr 1
    cases branches with
    | nil => rw [Tree.leaves, preorderAll, List.filter_cons_of_pos hleaf, List.filter_nil]
    | cons branch branches =>
      rw [List.filter_cons_of_neg (Bool.eq_false_iff.mp hleaf), ← ihbranches, Tree.leaves, leavesAll]

/-- An element of two lists one behind the other is one of the first or one of the second. -/
theorem cut_append {α : Type} {l l' before behind : List α} {a : α}
    (h : l ++ l' = before ++ a :: behind) :
    (∃ mid, l = before ++ a :: mid ∧ behind = mid ++ l') ∨
      ∃ mid, before = l ++ mid ∧ l' = mid ++ a :: behind := by
  rcases List.append_eq_append_iff.mp h with ⟨mid, hbefore, hl'⟩ | ⟨mid, hl, hrest⟩
  · exact .inr ⟨mid, hbefore, hl'⟩
  · cases mid with
    | nil => exact .inr ⟨[], by simpa using hl.symm, by simpa using hrest.symm⟩
    | cons b mid =>
      obtain ⟨rfl, hbehind⟩ := List.cons.inj hrest
      exact .inl ⟨mid, hl, hbehind⟩

/-- A walk through the trees cut at one of its rows: its branches come first in what is behind, and
everything else in the walk hangs from elsewhere. -/
theorem exists_branches (h : Hanging parent trees) {before behind : List Row}
    (hwalk : preorderAll trees = before ++ row :: behind) :
    ∃ branches rest, behind = preorderAll branches ++ rest ∧ Hanging row.id branches ∧
      ∀ other ∈ before ++ row :: rest, HangsAmong parent (before ++ rest) other := by
  induction h generalizing before behind with
  | nil => exact absurd hwalk (by simp [preorderAll])
  | @cons parent top branches trees htop _ hbranches htrees ihbranches ihtrees =>
    rw [preorderAll, preorder] at hwalk
    cases before with
    | nil =>
      obtain ⟨rfl, hbehind⟩ := List.cons.inj hwalk
      refine ⟨branches, preorderAll trees, hbehind.symm, hbranches, ?_⟩
      exact List.forall_mem_cons.mpr ⟨.inl htop, htrees.hangsAmong⟩
    | cons first before =>
      obtain ⟨rfl, hcut⟩ := List.cons.inj hwalk
      -- The row is in a branch of the first tree or in one of the trees behind it.
      rcases cut_append hcut with ⟨mid, hinside, rfl⟩ | ⟨mid, rfl, houtside⟩
      · obtain ⟨inner, rest, rfl, hinner, hothers⟩ := ihbranches hinside
        refine ⟨inner, rest ++ preorderAll trees, List.append_assoc .., hinner, ?_⟩
        rw [show top :: before ++ row :: (rest ++ preorderAll trees) =
          top :: ((before ++ row :: rest) ++ preorderAll trees) by simp]
        refine List.forall_mem_cons.mpr ⟨.inl htop, List.forall_mem_append.mpr ⟨?_, ?_⟩⟩
        · intro other hother
          exact (hothers other hother).of_mem List.mem_cons_self (by grind)
        · exact fun other hother => (htrees.hangsAmong other hother).mono (by grind)
      · obtain ⟨inner, rest, rfl, hinner, hothers⟩ := ihtrees houtside
        refine ⟨inner, rest, rfl, hinner, ?_⟩
        rw [List.cons_append, List.append_assoc]
        refine List.forall_mem_cons.mpr ⟨.inl htop, List.forall_mem_append.mpr ⟨?_, ?_⟩⟩
        · intro other hother
          exact (hbranches.hangsAmong other hother).of_mem List.mem_cons_self (by grind)
        · exact fun other hother => (hothers other hother).mono (by grind)

/-- **What is below a row is one block of the walk, right behind it.** -/
theorem exists_block {table : Table} (h : Hanging 0 trees) (hrows : table.rows = preorderAll trees)
    (hnodup : (table.rows.map Row.id).Nodup) (hpos : ∀ row ∈ table.rows, 0 < row.id)
    {before behind : List Row} (hcut : table.rows = before ++ row :: behind) :
    ∃ inside rest, behind = inside ++ rest ∧ (∀ other ∈ inside, table.Below row other) ∧
      ∀ other ∈ before ++ row :: rest, ¬ table.Below row other := by
  obtain ⟨branches, rest, rfl, hbranches, houtside⟩ := h.exists_branches (hrows.symm.trans hcut)
  refine ⟨preorderAll branches, rest, rfl, ?_, ?_⟩
  · exact hbranches.below_of_mem rfl fun other hother => by simp [hcut, hother]
  have hmem : ∀ other ∈ before ++ rest, other ∈ table.rows := by
    rw [hcut]
    exact fun other hother => by grind
  have hfresh : row ∉ before ++ rest := by
    have hrow := List.Nodup.of_map Row.id hnodup
    rw [hcut, List.nodup_middle, List.nodup_cons] at hrow
    exact fun hrow' => hrow.1 (by grind)
  -- The row that something outside of the block hangs from is outside of it as well.
  have hstep {above other : Row} (hother : other ∈ before ++ row :: rest)
      (habove : above ∈ table.rows) (hparent : other.parent = above.id) :
      above ∈ before ++ rest := by
    rcases houtside other hother with hzero | ⟨above', habove', hid⟩
    · have hid := hpos above habove
      omega
    · rwa [List.inj_on_of_nodup_map hnodup habove (hmem above' habove') (hparent.symm.trans hid)]
  intro other hother hbelow
  induction hbelow with
  | single hhangs => exact hfresh (hstep hother (by simp [hcut]) hhangs.2)
  | @tail above other habove hhangs ih =>
    have hinside : above ∈ table.rows := by
      cases habove with
      | single h => exact h.1
      | tail _ h => exact h.1
    refine ih ?_
    have hmem' := hstep hother hinside hhangs.2
    grind

end Hanging
end Row

end TypeDrift
