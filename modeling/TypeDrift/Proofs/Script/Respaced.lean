import Mathlib.Data.List.Forall2
import TypeDrift.Proofs.Script.Ranges

/-! # Spacing

Two texts with the same lexemes may differ in blanks and comments, and so in the places of all their
tokens.  Whether they are scripts, and with which expressions, is decided on the lexemes alone
(`Script.read_respaced`).

Places come back in where assignments and calls are listed by them.  Each stands at the start of a
token, and tokens begin in the order of their indices, so that sorting by places is sorting by
indices (`Script.le_spanAt`): the two scripts list the same things in the same order, and only the
places in them differ.
-/
namespace TypeDrift

section Sorting
variable {α β : Type} {P : α → β → Prop}

/-- What is related one by one stays so where both sides are sorted by keys that compare alike. -/
theorem forall₂_mergeSort {l : List α} {m : List β} {le : α → α → Bool} {le' : β → β → Bool}
    (h : List.Forall₂ P l m) (hle : ∀ a b a' b', P a b → P a' b' → le a a' = le' b b') :
    List.Forall₂ P (l.mergeSort le) (m.mergeSort le') := by
  have hlength := h.length_eq
  have hpairs : ∀ pair ∈ l.zip m, P pair.1 pair.2 := fun _ hpair => List.forall₂_zip h hpair
  -- Both are projections of the list of pairs, sorted.
  have hleft : (l.zip m).map Prod.fst = l := List.map_fst_zip (Nat.le_of_eq hlength)
  have hright : (l.zip m).map Prod.snd = m := List.map_snd_zip (Nat.le_of_eq hlength.symm)
  have hfst := List.map_mergeSort (r := fun p q => le p.1 q.1) (s := le) (f := Prod.fst)
    (l := l.zip m) fun _ _ _ _ => rfl
  have hsnd := List.map_mergeSort (r := fun p q => le p.1 q.1) (s := le') (f := Prod.snd)
    (l := l.zip m) fun p hp q hq => hle _ _ _ _ (hpairs p hp) (hpairs q hq)
  rw [hleft] at hfst
  rw [hright] at hsnd
  rw [← hfst, ← hsnd, List.forall₂_map_left_iff, List.forall₂_map_right_iff, List.forall₂_same]
  exact fun pair hpair => hpairs pair (List.mem_mergeSort.mp hpair)

end Sorting

/-- An assignment without its place. -/
def Assignment.unplaced (assignment : Assignment) : Assignment := { assignment with place := .start }

/-- A call without its place. -/
def CallSite.unplaced (site : CallSite) : CallSite := { site with place := .start }

namespace Script

/-- Two scripts that differ at most in the places of their tokens. -/
structure Respaced (script script' : Script) : Prop where
  lexemes : script.lexemes = script'.lexemes
  expressions : script.expressions = script'.expressions

/-- Tokens begin in the order of their indices. -/
theorem le_spanAt {tokens : Array Token} (h : tokens.toList.Pairwise Token.Precedes) {i j : Nat}
    (hi : i < tokens.size) (hj : j < tokens.size) :
    (spanAt tokens i).start.le (spanAt tokens j).start = decide (i ≤ j) := by
  rw [Bool.eq_iff_iff, decide_eq_true_iff]
  constructor
  · intro hle
    by_contra hlt
    have hbefore := start_before_start h (Nat.lt_of_not_le hlt) hi
    rw [Position.le_iff] at hle
    simp only [Position.Before] at hbefore
    omega
  · intro hle
    rcases Nat.lt_or_eq_of_le hle with hlt | rfl
    · exact start_le_start h hlt hj
    · exact Position.le_iff.mpr (.inr ⟨rfl, Nat.le_refl _⟩)

namespace Respaced

variable {script script' : Script} (h : Respaced script script')
include h

theorem size_eq : script.tokens.size = script'.tokens.size := by
  have hlength := congrArg List.length h.lexemes
  simpa [Script.lexemes] using hlength

theorem nodes_eq : script.nodes = script'.nodes := by rw [nodes, h.expressions, nodes]

/-- An expression on one line is written with lexemes alone. -/
theorem text_eq (e : Expr) : script.text e = script'.text e := by
  have htexts (s : Script) : ((s.tokensOf e.range).filter fun token => !token.isTrivia).map
      (fun token => token.text) =
        (((s.lexemes.take e.range.stop).drop e.range.start).filter fun lexeme =>
          !lexeme.isTrivia).map Lexeme.text := by
    rw [tokensOf_eq, Script.lexemes, ← List.map_take, ← List.map_drop, List.filter_map, List.map_map]
    rfl
  rw [text, text, htexts, htexts, h.lexemes]

/-- Where the one script has a token, and where the other has it. -/
def SamePlace (script script' : Script) (place place' : Position) : Prop :=
  ∃ i < script.tokens.size, place = (spanAt script.tokens i).start ∧
    place' = (spanAt script'.tokens i).start

variable (hscript : script.Sound) (hscript' : script'.Sound)
include hscript hscript'

omit h in
theorem SamePlace.le_eq (h : Respaced script script') {p p' q q' : Position}
    (hp : SamePlace script script' p p') (hq : SamePlace script script' q q') :
    p.le q = p'.le q' := by
  obtain ⟨i, hi, rfl, rfl⟩ := hp
  obtain ⟨j, hj, rfl, rfl⟩ := hq
  rw [le_spanAt hscript.ordered hi hj,
    le_spanAt hscript'.ordered (h.size_eq ▸ hi) (h.size_eq ▸ hj)]

/-- What is read off the nodes and listed by place is the same in both scripts, but for the places. -/
theorem listed {α β : Type} (place : α → Position) (unplaced : α → β) {of of' : Expr → Option α}
    (hof : ∀ e ∈ script.nodes, Option.Rel (fun a a' =>
      SamePlace script script' (place a) (place a') ∧ unplaced a = unplaced a') (of e) (of' e)) :
    ((script.nodes.filterMap of).mergeSort fun a b => (place a).le (place b)).map unplaced =
      ((script'.nodes.filterMap of').mergeSort fun a b => (place a).le (place b)).map unplaced := by
  rw [← h.nodes_eq, ← List.forall₂_eq_eq_eq, List.forall₂_map_left_iff, List.forall₂_map_right_iff]
  have hnodes : List.Forall₂ (fun e e' => Option.Rel _ (of e) (of' e')) script.nodes script.nodes :=
    List.forall₂_same.mpr hof
  refine (forall₂_mergeSort (List.rel_filterMap (fun _ _ h => h) hnodes) ?_).imp
    fun a a' ha => ha.2
  intro a a' b b' ha hb
  exact ha.1.le_eq hscript hscript' h hb.1

theorem assignments :
    script.assignments.map Assignment.unplaced = script'.assignments.map Assignment.unplaced := by
  refine h.listed hscript hscript' Assignment.place Assignment.unplaced fun e he => ?_
  obtain ⟨hwithin, -⟩ := Expr.inside_iff.mp (hscript.inside_of_mem he)
  cases hform : e.form with
  | assign operator place left right =>
    have hplace := hwithin.place place (by rw [hform]; rfl)
    have hlt : place < script.tokens.size := Nat.lt_of_lt_of_le hplace (Nat.sub_le _ _)
    simp only [assignment?, hform, h.text_eq]
    cases (operator.target left right).identifier? with
    | none => exact .none
    | some name => exact .some ⟨⟨place, hlt, rfl, rfl⟩, rfl⟩
  | _ =>
    simp only [assignment?, hform]
    exact .none

theorem callSites :
    script.callSites.map CallSite.unplaced = script'.callSites.map CallSite.unplaced := by
  refine h.listed hscript hscript' CallSite.place CallSite.unplaced fun e he => ?_
  obtain ⟨-, hchildren⟩ := Expr.inside_iff.mp (hscript.inside_of_mem he)
  cases hform : e.form with
  | call callee arguments =>
    have hcallee := hchildren callee (by rw [Expr.children, hform]; exact List.mem_cons_self)
    have hlt : callee.range.start < script.tokens.size :=
      Nat.lt_of_lt_of_le hcallee.start_lt (Nat.sub_le _ _)
    simp only [callSite?, hform]
    cases callee.form with
    | identifier name | namespaced package name hidden =>
      exact .some ⟨⟨callee.range.start, hlt, rfl, rfl⟩, rfl⟩
    | _ => exact .none
  | _ =>
    simp only [callSite?, hform]
    exact .none

end Respaced

/-- **Spacing does not decide what a text is.**  Two texts with the same lexemes are both scripts,
with the same expressions, or both none, for the same reason and at the same token. -/
theorem read_respaced {source source' : String} {tokens tokens' : List Token}
    (hscan : Token.scan source = .ok tokens) (hscan' : Token.scan source' = .ok tokens')
    (h : tokens.map Token.toLexeme = tokens'.map Token.toLexeme) :
    (∃ script script', read source = .ok script ∧ read source' = .ok script' ∧
      Respaced script script') ∨
    ∃ refusal : Refusal, refusal.index < tokens.length ∧
      read source = .error (faultOf tokens.toArray refusal) ∧
      read source' = .error (faultOf tokens'.toArray refusal) := by
  have hread : read source = ofTokens tokens := by simp only [read, hscan]
  have hread' : read source' = ofTokens tokens' := by simp only [read, hscan']
  rw [hread, hread', ofTokens, ofTokens, ← h]
  cases hes : Expr.readAll (tokens.map Token.toLexeme) with
  | ok es => exact .inl ⟨_, _, rfl, rfl, by simpa [lexemes] using h, rfl⟩
  | error refusal => exact .inr ⟨refusal, index_lt_of_scan hscan hes, rfl, rfl⟩

end Script
end TypeDrift
