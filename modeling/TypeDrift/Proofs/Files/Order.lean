import Mathlib.Data.List.Nodup
import TypeDrift.Files.Path

/-! # Sorted paths

Paths are sorted by their components, and two paths with the same components count as one.  A path
that is put into sorted paths leaves them sorted (`sorted_insert`), so whatever paths are put in one
by one, and however often, no two that stay have the same components (`Sorted.nodup_components`).
-/
namespace TypeDrift.Path

namespace Component

instance : Std.TransCmp compare :=
  inferInstanceAs (Std.TransCmp (compareLex (compareOn rank) (compareOn text)))

instance : Std.LawfulEqCmp compare where
  eq_of_compare {a b} h := by
    obtain ⟨hrank, htext⟩ := compareLex_eq_eq.mp h
    have hrank : a.rank = b.rank := Std.LawfulEqOrd.eq_of_compare hrank
    have htext : a.text = b.text := Std.LawfulEqOrd.eq_of_compare htext
    cases a <;> cases b <;> simp_all [rank, text]

end Component

instance : Std.TransCmp compare where
  eq_swap {a b} := by
    show List.compareLex Component.compare a.components b.components = _
    exact Std.OrientedCmp.eq_swap
  isLE_trans {a b c} h h' := by
    show (List.compareLex Component.compare a.components c.components).isLE = true
    exact Std.TransCmp.isLE_trans h h'

/-- Paths compare as equal if they have the same components, however they are spelled. -/
theorem compare_eq_iff {a b : Path} : a.compare b = .eq ↔ a.components = b.components := by
  show List.compareLex Component.compare a.components b.components = .eq ↔ _
  exact Std.LawfulEqCmp.compare_eq_iff_eq

variable {path other : Path} {paths found : List Path}

/-- Each path stands before those behind it. -/
def Sorted (paths : List Path) : Prop := paths.Pairwise fun a b => a.compare b = .lt

theorem mem_insert (h : other ∈ path.insert paths) : other = path ∨ other ∈ paths := by
  fun_induction insert path paths with
  | case1 => exact .inl (List.mem_singleton.mp h)
  | case2 first rest _ => exact List.mem_cons.mp h
  | case3 first rest _ => exact .inr h
  | case4 first rest _ ih =>
    rcases List.mem_cons.mp h with rfl | h
    · exact .inr List.mem_cons_self
    · exact (ih h).imp_right (List.mem_cons_of_mem _)

theorem mem_insert_of_mem (h : other ∈ paths) : other ∈ path.insert paths := by
  fun_induction insert path paths with
  | case1 => cases h
  | case2 first rest _ => exact List.mem_cons_of_mem _ h
  | case3 first rest _ => exact h
  | case4 first rest _ ih =>
    rcases List.mem_cons.mp h with rfl | h
    · exact List.mem_cons_self
    · exact List.mem_cons_of_mem _ (ih h)

/-- A path that is put in is there, or one with its components. -/
theorem exists_mem_insert (path : Path) (paths : List Path) :
    ∃ other ∈ path.insert paths, other.components = path.components := by
  fun_induction insert path paths with
  | case1 => exact ⟨path, List.mem_singleton_self _, rfl⟩
  | case2 first rest _ => exact ⟨path, List.mem_cons_self, rfl⟩
  | case3 first rest heq => exact ⟨first, List.mem_cons_self, (compare_eq_iff.mp heq).symm⟩
  | case4 first rest _ ih =>
    obtain ⟨other, hmem, heq⟩ := ih
    exact ⟨other, List.mem_cons_of_mem _ hmem, heq⟩

theorem sorted_insert (h : Sorted paths) : Sorted (path.insert paths) := by
  unfold Sorted at *
  fun_induction insert path paths with
  | case1 => exact List.pairwise_singleton _ _
  | case2 first rest hlt =>
    refine List.pairwise_cons.mpr ⟨fun other hmem => ?_, h⟩
    rcases List.mem_cons.mp hmem with rfl | hmem
    · exact hlt
    · exact Std.TransCmp.lt_trans hlt ((List.pairwise_cons.mp h).1 other hmem)
  | case3 first rest _ => exact h
  | case4 first rest hgt ih =>
    obtain ⟨hfirst, hrest⟩ := List.pairwise_cons.mp h
    refine List.pairwise_cons.mpr ⟨fun other hmem => ?_, ih hrest⟩
    rcases mem_insert hmem with rfl | hmem
    · exact Std.OrientedCmp.gt_iff_lt.mp hgt
    · exact hfirst other hmem

/-! ## Paths put in one by one -/

/-- Sorted paths with some more. -/
def insertAll (paths found : List Path) : List Path :=
  paths.foldl (fun found path => path.insert found) found

theorem sorted_insertAll (h : Sorted found) (paths : List Path) :
    Sorted (insertAll paths found) := by
  induction paths generalizing found with
  | nil => exact h
  | cons path paths ih => exact ih (sorted_insert h)

theorem mem_insertAll (h : other ∈ insertAll paths found) : other ∈ found ∨ other ∈ paths := by
  induction paths generalizing found with
  | nil => exact .inl h
  | cons path paths ih =>
    rcases ih h with hmem | hmem
    · rcases mem_insert hmem with rfl | hmem
      · exact .inr List.mem_cons_self
      · exact .inl hmem
    · exact .inr (List.mem_cons_of_mem _ hmem)

theorem mem_insertAll_of_mem (h : other ∈ found) : other ∈ insertAll paths found := by
  induction paths generalizing found with
  | nil => exact h
  | cons path paths ih => exact ih (mem_insert_of_mem h)

theorem exists_mem_insertAll (found : List Path) (h : path ∈ paths) :
    ∃ other ∈ insertAll paths found, other.components = path.components := by
  induction paths generalizing found with
  | nil => cases h
  | cons first paths ih =>
    rcases List.mem_cons.mp h with rfl | h
    · obtain ⟨other, hmem, heq⟩ := exists_mem_insert path found
      have hstays : other ∈ insertAll paths (path.insert found) := mem_insertAll_of_mem hmem
      exact ⟨other, hstays, heq⟩
    · exact ih (first.insert found) h

/-- Of sorted paths, no two have the same components. -/
theorem Sorted.nodup_components (h : Sorted paths) : (paths.map components).Nodup := by
  refine List.pairwise_map.mpr (h.imp fun hlt heq => ?_)
  rw [compare_eq_iff.mpr heq] at hlt
  cases hlt

end TypeDrift.Path
