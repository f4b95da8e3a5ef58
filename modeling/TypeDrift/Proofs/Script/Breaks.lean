import TypeDrift.Proofs.Expr.Continued
import TypeDrift.Proofs.Expr.Separated
import TypeDrift.Proofs.Script.Newlines

/-! # Line breaks outside of brackets

Where line breaks are significant they are so as separators only (`Script.ofTokens_breaks`).  Behind an
operator, where no expression can end, one more of them changes nothing but the indices of the tokens
behind it.  And between two expressions, of a script or of a block, a semicolon does what a line break
does, so that not even the indices change.
-/
namespace TypeDrift

namespace Expr

/-- The index lies behind one of these expressions, and before the next one. -/
def IsBetween (place : Nat) (es : List Expr) : Prop :=
  ∃ pair ∈ es.zip es.tail, pair.1.range.stop ≤ place ∧ place < pair.2.range.start

instance (place : Nat) (es : List Expr) : Decidable (IsBetween place es) :=
  inferInstanceAs (Decidable (∃ pair ∈ es.zip es.tail, _ ∧ _))

variable {row : List Lexeme} {place lo hi : Nat} {es : List Expr}

/-- Expressions that are laid out one behind the other go on behind the place, and it lies between the
first of them and the last. -/
theorem Laid.outside (h : Laid row lo hi es) (hplace : IsBetween place es) :
    (lo ≤ place ∧ place < hi) ∧ Outside place es := by
  induction h with
  | nil =>
    obtain ⟨pair, hpair, -⟩ := hplace
    cases hpair
  | @cons lo hi e es hstart htiled hrest ih =>
    have hnonempty := htiled.nonempty
    obtain ⟨⟨a, b⟩, hpair, hstop, hnext⟩ := hplace
    cases hrest with
    | nil => cases hpair
    | @cons _ _ next es hstart' htiled' hrest' =>
      have hnonempty' := htiled'.nonempty
      have hle := hrest'.le
      rcases List.mem_cons.mp hpair with hfirst | hpair
      · obtain ⟨rfl, rfl⟩ := Prod.mk.inj hfirst
        simp only at hstop hnext
        -- The place lies right behind the first expression, and all others begin behind it.
        refine ⟨⟨by omega, by omega⟩, List.forall_mem_cons.mpr ⟨?_, List.forall_mem_cons.mpr
          ⟨TokenRange.contains_eq_false_iff.mpr (.inl hnext), fun e' he' => ?_⟩⟩⟩
        · exact TokenRange.contains_eq_false_iff.mpr (.inr hstop)
        · have hwithin := hrest'.within e' he'
          exact TokenRange.contains_eq_false_iff.mpr (.inl (by omega))
      · obtain ⟨⟨hlo, hhi⟩, houtside⟩ := ih ⟨(a, b), hpair, hstop, hnext⟩
        refine ⟨⟨by omega, hhi⟩, List.forall_mem_cons.mpr ⟨?_, houtside⟩⟩
        exact TokenRange.contains_eq_false_iff.mpr (.inr hlo)

end Expr

namespace Script

/-- The token with this index stands between two expressions, one right behind the other, of the
script or of one of its blocks. -/
def IsBetweenExpressions (script : Script) (place : Nat) : Prop :=
  Expr.IsBetween place script.expressions ∨
    ∃ node ∈ script.nodes, node.form.isBlock = true ∧ Expr.IsBetween place node.children

/-- What stands between expressions lies outside of all of them, or in a block that it divides. -/
theorem IsBetweenExpressions.divides {tokens : List Token} {script : Script} {place : Nat}
    (hread : ofTokens tokens = .ok script) (h : script.IsBetweenExpressions place) :
    Expr.Divided place script.expressions ∨ Expr.Outside place script.expressions := by
  obtain ⟨c, hreads⟩ := Expr.readAll_eq_ok_iff.mp (ofTokens_eq_ok_iff.mp hread).2
  obtain ⟨hlaid, -⟩ := hreads.laysOut (Cursor.in_ofLexemes _)
  refine h.symm.imp (fun ⟨node, hnode, hblock, hplace⟩ => ?_) fun hplace => (hlaid.outside hplace).2
  obtain ⟨e, he, hmem⟩ := List.mem_flatMap.mp hnode
  have htiled := (hlaid.tiled e he).of_mem_preorder hmem
  obtain ⟨hwithin, houtside⟩ := htiled.laid_children.outside hplace
  exact ⟨node, hnode, hblock, TokenRange.contains_iff.mpr hwithin, houtside⟩

/-- **Outside of brackets a line break matters only as a separator.**  Where some tokens are a script,
one more line break right behind an operator leaves it the same, but for the indices of the tokens
behind it; and so does a semicolon in the place of a line break between two expressions, which leaves
the indices as well. -/
theorem ofTokens_breaks {tokens : List Token} {script : Script}
    (hread : ofTokens tokens = .ok script) :
    (∀ earlier operator newline later, tokens = earlier ++ operator :: later →
      operator.kind.isOperator = true → newline.kind = .newline →
      ofTokens (earlier ++ operator :: newline :: later) =
        .ok ⟨(earlier ++ operator :: newline :: later).toArray,
          script.expressions.map (Expr.renumber (.gap (earlier.length + 1)))⟩) ∧
    (∀ earlier newline semicolon later, tokens = earlier ++ newline :: later →
      newline.kind = .newline → semicolon.kind = .semicolon →
      script.IsBetweenExpressions earlier.length →
      ofTokens (earlier ++ semicolon :: later) =
        .ok ⟨(earlier ++ semicolon :: later).toArray, script.expressions⟩) := by
  have hes := (ofTokens_eq_ok_iff.mp hread).2
  refine ⟨fun earlier operator newline later htokens hoperator hnewline => ?_,
    fun earlier newline semicolon later htokens hnewline hsemicolon hplace => ?_⟩
  · rw [htokens, List.map_append, List.map_cons] at hes
    have hcontinued := Expr.readAll_continued hoperator hnewline hes
    rw [List.length_map] at hcontinued
    exact ofTokens_eq_ok_iff.mpr
      ⟨rfl, by rw [List.map_append, List.map_cons, List.map_cons, hcontinued]⟩
  · rw [htokens, List.map_append, List.map_cons] at hes
    have hdivides := hplace.divides hread
    rw [← List.length_map (f := Token.toLexeme)] at hdivides
    have hseparated := Expr.readAll_separated hnewline hsemicolon hes hdivides
    exact ofTokens_eq_ok_iff.mpr ⟨rfl, by rw [List.map_append, List.map_cons, hseparated]⟩

/-- A line break behind `!`, and a semicolon between the two expressions of a block. -/
theorem ofTokens_breaks_block :
    ∃ before between behind script,
      before = [.bare .leftBrace "\x7b", .bare .identifier "x", .bare .leftAssign "<-"] ∧
      between = [.bare .identifier "y"] ∧
      behind = [.bare .identifier "x", .bare .dollar "$", .bare .identifier "z",
        .bare .rightBrace "\x7d", .bare .endOfInput ""] ∧
      ofTokens (before ++ .bare .bang "!" :: (between ++ .bare .newline "\n" :: behind)) =
        .ok script ∧
      ofTokens (before ++ .bare .bang "!" :: .bare .newline "\n" ::
          (between ++ .bare .newline "\n" :: behind)) =
        .ok ⟨(before ++ .bare .bang "!" :: .bare .newline "\n" ::
          (between ++ .bare .newline "\n" :: behind)).toArray,
          script.expressions.map (Expr.renumber (.gap 4))⟩ ∧
      ofTokens ((before ++ .bare .bang "!" :: between) ++ .bare .semicolon ";" :: behind) =
        .ok ⟨((before ++ .bare .bang "!" :: between) ++ .bare .semicolon ";" :: behind).toArray,
          script.expressions⟩ := by
  let before : List Token :=
    [.bare .leftBrace "\x7b", .bare .identifier "x", .bare .leftAssign "<-"]
  let between : List Token := [.bare .identifier "y"]
  let behind : List Token := [.bare .identifier "x", .bare .dollar "$", .bare .identifier "z",
    .bare .rightBrace "\x7d", .bare .endOfInput ""]
  let tokens := before ++ .bare .bang "!" :: (between ++ .bare .newline "\n" :: behind)
  have htest : ((ofTokens tokens).toOption.any fun script => script.expressions.any fun e =>
      e.form.isBlock && decide (Expr.IsBetween 5 e.children)) = true := by decide +kernel
  cases hread : ofTokens tokens with
  | error fault =>
    rw [hread] at htest
    cases htest
  | ok script =>
    rw [hread] at htest
    obtain ⟨e, he, hbetween⟩ := List.any_eq_true.mp htest
    obtain ⟨hblock, hplace⟩ := (Bool.and_eq_true _ _).mp hbetween
    have hnode : e ∈ script.nodes := List.mem_flatMap.mpr ⟨e, he, by
      rw [Expr.preorder_eq]
      exact List.mem_cons_self⟩
    obtain ⟨hcontinued, hseparated⟩ := ofTokens_breaks hread
    exact ⟨before, between, behind, script, rfl, rfl, rfl, hread,
      hcontinued before _ _ _ rfl rfl rfl,
      hseparated (before ++ .bare .bang "!" :: between) _ _ _ rfl rfl rfl
        (.inr ⟨e, hnode, hblock, of_decide_eq_true hplace⟩)⟩

end Script
end TypeDrift
