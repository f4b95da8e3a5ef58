import TypeDrift.Proofs.Expr.Ranges

/-! # How expressions are nested

`Tiled` speaks of an expression and its parts.  Here the same is said of any two expressions in a
listing that puts each before its parts (`Laid.nested`): the later one stands either behind the
earlier one, or within it and on fewer tokens.  So no two of them have one range
(`Laid.ranges_nodup`), and of those around one token the later ones are the inner ones (`Nested.sub`).
-/
namespace TypeDrift

/-- All tokens of this range are tokens of the other. -/
def TokenRange.Sub (inner outer : TokenRange) : Prop :=
  outer.start ≤ inner.start ∧ inner.stop ≤ outer.stop

namespace TokenRange

variable {a b c : TokenRange} {index : Nat}

theorem Sub.refl (a : TokenRange) : a.Sub a := ⟨Nat.le_refl _, Nat.le_refl _⟩

theorem Sub.trans (hab : a.Sub b) (hbc : b.Sub c) : a.Sub c :=
  ⟨Nat.le_trans hbc.1 hab.1, Nat.le_trans hab.2 hbc.2⟩

theorem Sub.contains (h : a.Sub b) (hcontains : a.contains index = true) :
    b.contains index = true := by
  rw [contains_iff] at hcontains ⊢
  unfold Sub at h
  omega

/-- A range that is not all of the one around it is shorter. -/
theorem Sub.length_lt (h : a.Sub b) (hne : a ≠ b) (hcontains : a.contains index = true) :
    a.stop - a.start < b.stop - b.start := by
  rw [contains_iff] at hcontains
  obtain ⟨hstart, hstop⟩ := h
  by_contra hle
  have heq : a.start = b.start ∧ a.stop = b.stop := by omega
  cases a
  cases b
  exact hne (TokenRange.mk.injEq .. ▸ heq)

end TokenRange

namespace Expr

/-- How an expression stands to a later one of a listing that puts each before its parts: around it,
on more tokens, or before it. -/
def Nested (a b : Expr) : Prop :=
  (b.range.Sub a.range ∧ b.range ≠ a.range) ∨ a.range.stop ≤ b.range.start

variable {row : List Lexeme} {e : Expr} {es : List Expr} {lo hi : Nat}

theorem preorderAll_cons (e : Expr) (es : List Expr) :
    preorderAll (e :: es) = e.preorder ++ preorderAll es := List.flatMap_cons

theorem Tiled.of_mem_preorder (h : e.Tiled row) {node : Expr} (hnode : node ∈ e.preorder) :
    node.Tiled row := fun inner hinner => h inner (mem_preorder_trans hinner hnode)

theorem Tiled.nonempty (h : e.Tiled row) : e.range.start < e.range.stop :=
  (tiled_iff.mp h).1.nonempty

/-- What is in an expression stands within its range. -/
theorem Tiled.sub (h : e.Tiled row) : ∀ node ∈ e.preorder, node.range.Sub e.range := by
  induction e using induction_children with
  | step e ih =>
    obtain ⟨hlaid, htiled⟩ := tiled_iff.mp h
    refine forall_mem_preorder_iff.mpr ⟨TokenRange.Sub.refl _, fun child hchild node hnode => ?_⟩
    exact (ih child hchild (htiled child hchild) node hnode).trans (hlaid.inside child hchild)

/-- No part of an expression takes up its whole range. -/
theorem LaidOut.range_ne (h : e.LaidOut row) {child : Expr} (hchild : child ∈ e.children)
    {node : Expr} (hsub : node.range.Sub child.range) : node.range ≠ e.range := by
  intro heq
  obtain ⟨index, -, hcontains, hown⟩ := h.own
  have hchild' : child.range.contains index = true := hsub.contains (heq ▸ hcontains)
  rw [hown child hchild] at hchild'
  cases hchild'

theorem nested_preorderAll (hnested : ∀ e ∈ es, e.preorder.Pairwise Nested)
    (htiled : ∀ e ∈ es, e.Tiled row)
    (hordered : es.Pairwise fun a b => a.range.stop ≤ b.range.start) :
    (preorderAll es).Pairwise Nested := by
  refine List.pairwise_flatMap.mpr ⟨hnested, ?_⟩
  refine List.Pairwise.imp_of_mem ?_ hordered
  intro a b ha hb hle x hx y hy
  have hxa := ((htiled a ha).sub x hx).2
  have hyb := ((htiled b hb).sub y hy).1
  exact .inr (Nat.le_trans hxa (Nat.le_trans hle hyb))

theorem Tiled.nested (h : e.Tiled row) : e.preorder.Pairwise Nested := by
  induction e using induction_children with
  | step e ih =>
    obtain ⟨hlaid, htiled⟩ := tiled_iff.mp h
    rw [preorder_eq]
    refine List.Pairwise.cons ?_
      (nested_preorderAll (fun child hchild => ih child hchild (htiled child hchild)) htiled
        hlaid.ordered)
    intro node hnode
    obtain ⟨child, hchild, hnode⟩ := List.mem_flatMap.mp hnode
    have hsub := (htiled child hchild).sub node hnode
    exact .inl ⟨hsub.trans (hlaid.inside child hchild), hlaid.range_ne hchild hsub⟩

/-- **Of two expressions in a listing the later one stands within the earlier one or behind it.** -/
theorem Laid.nested (h : Laid row lo hi es) : (preorderAll es).Pairwise Nested :=
  nested_preorderAll (fun e he => (h.tiled e he).nested) h.tiled h.ordered

/-- No two expressions have one range. -/
theorem Laid.ranges_nodup (h : Laid row lo hi es) :
    ((preorderAll es).map Expr.range).Nodup := by
  refine List.pairwise_map.mpr (List.Pairwise.imp_of_mem ?_ h.nested)
  intro a b ha _ hab heq
  obtain ⟨e, he, ha⟩ := List.mem_flatMap.mp ha
  have hnonempty := ((h.tiled e he).of_mem_preorder ha).nonempty
  rcases hab with ⟨-, hne⟩ | hle
  · exact hne heq.symm
  · rw [← heq] at hle
    omega

/-- Everything in expressions on a range stands within it. -/
theorem Laid.within_preorderAll (h : Laid row lo hi es) :
    ∀ node ∈ preorderAll es, lo ≤ node.range.start ∧ node.range.stop ≤ hi := by
  refine List.forall_mem_flatMap.mpr fun e he node hnode => ?_
  obtain ⟨hstart, hstop⟩ := (h.tiled e he).sub node hnode
  have hwithin := h.within e he
  omega

theorem laid_of_ordered (hle : lo ≤ hi)
    (hinside : ∀ e ∈ es, lo ≤ e.range.start ∧ e.range.stop ≤ hi)
    (hordered : es.Pairwise fun a b => a.range.stop ≤ b.range.start)
    (htiled : ∀ e ∈ es, e.Tiled row) : Laid row lo hi es := by
  induction es generalizing lo with
  | nil => exact .nil hle
  | cons e es ih =>
    obtain ⟨⟨hstart, hstop⟩, hothers⟩ := List.forall_mem_cons.mp hinside
    obtain ⟨hbehind, hordered⟩ := List.pairwise_cons.mp hordered
    obtain ⟨he, hes⟩ := List.forall_mem_cons.mp htiled
    refine .cons hstart he (ih hstop (fun other hother => ?_) hordered hes)
    exact ⟨hbehind other hother, (hothers other hother).2⟩

/-- The parts of an expression are laid out on its range. -/
theorem Tiled.laid_children (h : e.Tiled row) : Laid row e.range.start e.range.stop e.children := by
  obtain ⟨hlaid, htiled⟩ := tiled_iff.mp h
  exact laid_of_ordered (Nat.le_of_lt hlaid.nonempty) hlaid.inside hlaid.ordered htiled

/-- Of two expressions around one token the later one is the inner one. -/
theorem Nested.sub {a b : Expr} {index : Nat} (h : Nested a b)
    (ha : a.range.contains index = true) (hb : b.range.contains index = true) :
    b.range.Sub a.range := by
  rcases h with ⟨hsub, -⟩ | hle
  · exact hsub
  · rw [TokenRange.contains_iff] at ha hb
    omega

end Expr
end TypeDrift
