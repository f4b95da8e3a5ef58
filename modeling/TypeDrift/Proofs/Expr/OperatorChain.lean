import TypeDrift.Proofs.Expr.Complete
import TypeDrift.Script.Basic

/-! # Chains of operators

Names with an operator between any two of them are one expression.  Its tree can be told without
reading from left to right: at the root stands the loosest operator, and of several on the loosest
level the first one if the level associates to the right and the last one else; what stands on either
side of it is a chain again (`Chain.Tree`).

A reader meets the same operators one by one and compares powers only: an operator takes in on its
right what binds at least as strongly as its right power.  That the root is what no earlier operator
takes in, and that it takes in all later ones (`Chain.isRoot_iff`), is the one fact that brings the
two together.
-/
namespace TypeDrift

/-! ## The powers of two operators

The two powers of a level differ by one, the lesser one is even, and which is the lesser one is the
same for all operators of a level.  So a power towards the left and one towards the right are equal
only between different levels. -/

namespace Level

theorem binding_even (level : Level) : level.binding % 2 = 0 := by cases level <;> rfl

theorem isRightward_eq (level : Level) :
    level.isRightward = (level.binding == 4 || level.binding == 6 || level.binding == 30) := by
  cases level <;> rfl

variable {a b c : Level}

theorem isRightward_congr (h : a.binding = b.binding) : a.isRightward = b.isRightward := by
  rw [isRightward_eq, isRightward_eq, h]

theorem powers (level : Level) :
    level.isRightward = true ∧ level.leftPower = level.binding + 1 ∧
        level.rightPower = level.binding ∨
      level.isRightward = false ∧ level.leftPower = level.binding ∧
        level.rightPower = level.binding + 1 := by
  unfold leftPower rightPower
  cases level.isRightward
  · exact .inr ⟨rfl, rfl, rfl⟩
  · exact .inl ⟨rfl, rfl, rfl⟩

/-- An operator is not taken in by an earlier one if it is looser, or as loose and not the first to
take in. -/
theorem leftPower_lt_rightPower_iff :
    b.leftPower < a.rightPower ↔
      b.binding ≤ a.binding ∧ (b.isRightward = true → b.binding ≠ a.binding) := by
  have ha := a.binding_even
  have hb := b.binding_even
  have hsame : b.binding = a.binding → b.isRightward = a.isRightward := isRightward_congr
  rcases a.powers with ⟨hra, -, hright⟩ | ⟨hra, -, hright⟩ <;>
    rcases b.powers with ⟨hrb, hleft, -⟩ | ⟨hrb, hleft, -⟩ <;>
    simp only [hra, hrb, hleft, hright, forall_const, Bool.false_eq_true, Bool.true_eq_false,
      false_implies, and_true, imp_false] at hsame ⊢ <;>
    omega

theorem rightPower_le_leftPower_iff :
    a.rightPower ≤ b.leftPower ↔
      a.binding ≤ b.binding ∧ (a.isRightward = false → a.binding ≠ b.binding) := by
  rw [← not_lt, leftPower_lt_rightPower_iff]
  have hsame : b.binding = a.binding → b.isRightward = a.isRightward := isRightward_congr
  rcases a.powers with ⟨hra, -⟩ | ⟨hra, -⟩ <;> rcases b.powers with ⟨hrb, -⟩ | ⟨hrb, -⟩ <;>
    simp only [hra, hrb, forall_const, Bool.false_eq_true, Bool.true_eq_false, false_implies,
      and_true, imp_false] at hsame ⊢ <;>
    omega

/-- What is too loose for the left power of an operator is too loose for its right power. -/
theorem lt_rightPower (h : a.leftPower < b.leftPower) : a.leftPower < b.rightPower := by
  have ha := a.binding_even
  have hb := b.binding_even
  have hsame : a.binding = b.binding → a.isRightward = b.isRightward := isRightward_congr
  rcases a.powers with ⟨hra, hleft, -⟩ | ⟨hra, hleft, -⟩ <;>
    rcases b.powers with ⟨hrb, hleft', hright⟩ | ⟨hrb, hleft', hright⟩ <;>
    simp only [hra, hrb, hleft, hleft', hright, Bool.false_eq_true, Bool.true_eq_false, imp_false]
      at h hsame ⊢ <;>
    omega

/-- What an operator does not take in, because an operator that it does not take in does not. -/
theorem lt_rightPower_trans (h : a.leftPower < b.rightPower) (h' : b.leftPower < c.rightPower) :
    a.leftPower < c.rightPower := by
  rcases b.powers with ⟨-, hleft, hright⟩ | ⟨-, hleft, hright⟩ <;> omega

end Level

/-- Whatever goes on with an expression binds as some level does. -/
theorem Continuation.exists_level (step : Continuation) :
    ∃ level : Level, step.leftPower = level.leftPower := by
  cases step with
  | call => exact ⟨.call, rfl⟩
  | index double => exact ⟨.call, rfl⟩
  | member slot => exact ⟨.member, rfl⟩
  | between level => exact ⟨level, rfl⟩

/-! ## The tree of a chain -/

/-- An operator and the operand behind it, with line breaks between them. -/
structure Link where
  operator : Lexeme
  level : Level
  breaks : List Lexeme
  operand : Lexeme
  level_eq : operator.kind.level? = some level
  breaks_newline : ∀ lexeme ∈ breaks, lexeme.kind = .newline
  operand_identifier : operand.kind = .identifier

/-- Names with an operator between any two of them. -/
structure Chain where
  first : Lexeme
  links : List Link
  first_identifier : first.kind = .identifier

/-- An operator at its place in a row, and the operand behind it as an expression. -/
structure Joint where
  operator : Lexeme
  level : Level
  place : Nat
  operand : Expr

namespace Link

/-- The lexemes that a link is written with. -/
def lexemes (link : Link) : List Lexeme := link.operator :: link.breaks ++ [link.operand]

theorem ofKind?_operator (link : Link) :
    Continuation.ofKind? link.operator.kind = some (.between link.level) := by
  have hlevel := link.level_eq
  generalize link.operator.kind = kind at hlevel
  cases kind <;> first | cases hlevel | exact congrArg (Option.map Continuation.between) hlevel

theorem operator_ne (link : Link) {kind : Kind} (h : kind.level? = none) :
    link.operator.kind ≠ kind := by
  rintro rfl
  cases link.level_eq.symm.trans h

/-- The links behind a link that its operator takes in, and those from the first one on that it does
not. -/
theorem exists_taken (link : Link) (links : List Link) :
    ∃ inner outer, links = inner ++ outer ∧
      (∀ other ∈ inner, link.level.rightPower ≤ other.level.leftPower) ∧
      ∀ other ∈ outer.head?, other.level.leftPower < link.level.rightPower := by
  let tight (other : Link) : Bool := link.level.rightPower ≤ other.level.leftPower
  refine ⟨links.takeWhile tight, links.dropWhile tight, List.takeWhile_append_dropWhile.symm,
    fun other hmem => ?_, fun other hmem => ?_⟩
  · simpa [tight] using List.mem_takeWhile_imp hmem
  · have hloose := List.head?_dropWhile_not tight links
    rw [Option.mem_def.mp hmem] at hloose
    simpa [tight] using hloose

/-- The operand of a link whose operator has this place. -/
def operandAt (link : Link) (place : Nat) : Expr :=
  .node ⟨place + 1 + link.breaks.length, place + 1 + link.breaks.length + 1⟩
    (.identifier link.operand.name)

end Link

namespace Joint

/-- The joints that links make which begin at this place. -/
def ofLinks (place : Nat) : List Link → List Joint
  | [] => []
  | link :: links =>
    ⟨link.operator, link.level, place, link.operandAt place⟩ ::
      ofLinks (place + link.lexemes.length) links

theorem ofLinks_append (place : Nat) (first second : List Link) :
    ofLinks place (first ++ second) =
      ofLinks place first ++ ofLinks (place + (first.flatMap Link.lexemes).length) second := by
  induction first generalizing place with
  | nil => rfl
  | cons link links ih => simp [ofLinks, ih, Nat.add_assoc]

theorem map_level_ofLinks (place : Nat) (links : List Link) :
    (ofLinks place links).map level = links.map Link.level := by
  induction links generalizing place with
  | nil => rfl
  | cons link links ih => exact congrArg (link.level :: ·) (ih _)

theorem forall_mem_ofLinks {place : Nat} {links : List Link} {P : Level → Prop} :
    (∀ joint ∈ ofLinks place links, P joint.level) ↔ ∀ link ∈ links, P link.level := by
  rw [← List.forall_mem_map, map_level_ofLinks, List.forall_mem_map]

/-- The expression that an operator makes of what stands on either side of it. -/
def join (joint : Joint) (left right : Expr) : Expr :=
  .node ⟨left.range.start, right.range.stop⟩ (.between joint.operator joint.place left right)

end Joint

namespace Chain

/-- The row of lexemes that a chain is written with. -/
def row (chain : Chain) : List Lexeme :=
  chain.first :: chain.links.flatMap Link.lexemes ++ [.endOfInput]

/-- The root between earlier and later operators: none of them is looser, and of those on its level
it is the first one, if the level associates to the right, and else the last one. -/
def IsRoot (earlier : List Joint) (root : Joint) (later : List Joint) : Prop :=
  (∀ other ∈ earlier ++ later, root.level.binding ≤ other.level.binding) ∧
    ∀ other ∈ if root.level.isRightward then earlier else later,
      root.level.binding ≠ other.level.binding

/-- The tree of an operand and the joints behind it: the root, and on either side of it the tree of
what stands there. -/
inductive Tree : Expr → List Joint → Expr → Prop where
  | operand (first : Expr) : Tree first [] first
  | root {first left right : Expr} {root : Joint} {earlier later : List Joint}
      (hroot : IsRoot earlier root later) (hleft : Tree first earlier left)
      (hright : Tree root.operand later right) :
      Tree first (earlier ++ root :: later) (root.join left right)

/-- The first operand of a chain as an expression. -/
def head (chain : Chain) : Expr := .node ⟨0, 1⟩ (.identifier chain.first.name)

/-- The joints of a chain. -/
def joints (chain : Chain) : List Joint := Joint.ofLinks 1 chain.links

/-- No earlier operator takes the root in, and it takes in all later ones. -/
theorem isRoot_iff {earlier later : List Joint} {root : Joint} :
    IsRoot earlier root later ↔
      (∀ other ∈ earlier, root.level.leftPower < other.level.rightPower) ∧
        ∀ other ∈ later, root.level.rightPower ≤ other.level.leftPower := by
  simp only [IsRoot, Level.leftPower_lt_rightPower_iff, Level.rightPower_le_leftPower_iff,
    List.forall_mem_append]
  cases root.level.isRightward
  · simp only [Bool.false_eq_true, if_false, false_implies, and_true, forall_const,
      forall_and, and_assoc]
  · simp only [if_true, Bool.true_eq_false, false_implies, and_true, forall_const, forall_and]
    exact and_right_comm

/-- There is only one root. -/
theorem IsRoot.unique {earlier earlier' later later' : List Joint} {root root' : Joint}
    (h : IsRoot earlier root later) (h' : IsRoot earlier' root' later')
    (heq : earlier ++ root :: later = earlier' ++ root' :: later') :
    earlier = earlier' ∧ root = root' ∧ later = later' := by
  rw [isRoot_iff] at h h'
  -- Of two roots the first one would take in the second one, which no operator takes in.
  rcases List.append_eq_append_iff.mp heq with ⟨between, rfl, hbetween⟩ | ⟨between, rfl, hbetween⟩
  · cases between with
    | nil => simpa [eq_comm] using hbetween
    | cons first between =>
      obtain ⟨rfl, rfl⟩ := List.cons.inj hbetween
      exact absurd (h'.1 root (by simp)) (Nat.not_lt.mpr (h.2 root' (by simp)))
  · cases between with
    | nil => simpa [eq_comm] using hbetween
    | cons first between =>
      obtain ⟨rfl, rfl⟩ := List.cons.inj hbetween
      exact absurd (h.1 root' (by simp)) (Nat.not_lt.mpr (h'.2 root (by simp)))

/-- There is only one tree. -/
theorem Tree.unique {first e e' : Expr} {joints : List Joint} (h : Tree first joints e)
    (h' : Tree first joints e') : e' = e := by
  induction h generalizing e' with
  | operand first =>
    generalize hjoints : ([] : List Joint) = joints at h'
    cases h' with
    | operand => rfl
    | root => simp at hjoints
  | @root first left right root earlier later hroot hleft hright ihleft ihright =>
    generalize hjoints : earlier ++ root :: later = joints at h'
    cases h' with
    | operand => simp at hjoints
    | root hroot' hleft' hright' =>
      obtain ⟨rfl, rfl, rfl⟩ := hroot.unique hroot' hjoints
      rw [ihleft hleft', ihright hright']

/-- A reader that has read an operator with all that this takes in has read what is the leftmost part
of the tree: it stands there like an operand, and the rest of the tree is the same. -/
theorem Tree.cons {first right e : Expr} {joint : Joint} {inner outer : List Joint}
    (hright : Tree joint.operand inner right) (h : Tree (joint.join first right) outer e)
    (hinner : ∀ other ∈ inner, joint.level.rightPower ≤ other.level.leftPower)
    (houter : ∀ other ∈ outer.head?, other.level.leftPower < joint.level.rightPower) :
    Tree first (joint :: inner ++ outer) e := by
  generalize hleft : joint.join first right = left at h
  induction h with
  | operand left =>
    subst hleft
    rw [List.append_nil]
    have hroot : IsRoot [] joint inner := isRoot_iff.mpr ⟨List.forall_mem_nil _, hinner⟩
    exact .root hroot (.operand first) hright
  | @root left left' right' root earlier later hroot hleft' hright' ihleft ihright =>
    obtain ⟨hearlier, hlater⟩ := isRoot_iff.mp hroot
    -- The root is loose enough not to be taken in by the operator that has been read.
    have hloose : root.level.leftPower < joint.level.rightPower := by
      cases earlier with
      | nil => exact houter root rfl
      | cons first earlier =>
        exact Level.lt_rightPower_trans (hearlier first List.mem_cons_self) (houter first rfl)
    have hrest := ihleft
      (fun other hother => houter other (by rw [List.head?_append, hother]; rfl)) hleft
    rw [← List.append_assoc]
    refine .root (isRoot_iff.mpr ⟨fun other hother => ?_, hlater⟩) hrest hright'
    rcases List.mem_append.mp hother with hother | hother
    · rcases List.mem_cons.mp hother with rfl | hother
      · exact hloose
      · exact Level.lt_rightPower (Nat.lt_of_lt_of_le hloose (hinner other hother))
    · exact hearlier other hother

/-! ## Reading a chain -/

open Expr Cursor

/-- What a chain that is read with some power ends before. -/
structure EndsAt (power : Nat) (lexeme : Lexeme) : Prop where
  ne_newline : lexeme.kind ≠ .newline
  ne_doubleColon : lexeme.kind ≠ .doubleColon
  ne_tripleColon : lexeme.kind ≠ .tripleColon
  loose : ∀ step, Continuation.ofKind? lexeme.kind = some step → step.leftPower < power

/-- A chain ends before an operator that binds too loosely. -/
theorem endsAt_operator {power : Nat} (link : Link) (h : link.level.leftPower < power) :
    EndsAt power link.operator where
  ne_newline := link.operator_ne rfl
  ne_doubleColon := link.operator_ne rfl
  ne_tripleColon := link.operator_ne rfl
  loose step hstep := by
    rw [link.ofKind?_operator] at hstep
    cases hstep
    exact h

/-- What ends a chain in which an operator stands ends the right operand of the operator, too. -/
theorem EndsAt.right {power : Nat} {lexeme : Lexeme} {level : Level} (h : EndsAt power lexeme)
    (hpower : power ≤ level.leftPower) : EndsAt level.rightPower lexeme where
  ne_newline := h.ne_newline
  ne_doubleColon := h.ne_doubleColon
  ne_tripleColon := h.ne_tripleColon
  loose step hstep := by
    obtain ⟨other, hother⟩ := step.exists_level
    rw [hother]
    exact Level.lt_rightPower (hother ▸ Nat.lt_of_lt_of_le (h.loose step hstep) hpower)

/-- Behind a name in a chain comes an operator, or what the chain ends before. -/
theorem kind_head_ne {links : List Link} {more : List Lexeme} {kind : Kind}
    (hkind : kind.level? = none) (hmore : (more.headD .endOfInput).kind ≠ kind) :
    ((links.flatMap Link.lexemes ++ more).headD .endOfInput).kind ≠ kind := by
  cases links with
  | nil => exact hmore
  | cons link links => exact link.operator_ne hkind

theorem reads_name {c : Cursor} {name : Lexeme} {more : List Lexeme} (hrest : c.rest = name :: more)
    (hname : name.kind = .identifier) (hdouble : (more.headD .endOfInput).kind ≠ .doubleColon)
    (htriple : (more.headD .endOfInput).kind ≠ .tripleColon) :
    Reads .operand c (.node ⟨c.index, c.index + 1⟩ (.identifier name.name))
      ⟨c.index + 1, more, c.index, c.brackets⟩ := by
  have hhead : c.head = name := by rw [Cursor.head, hrest]; rfl
  have hsettle : c.settle = c := settle_of_head (by rw [hhead, hname]; decide)
  have hadvance : c.advance = ⟨c.index + 1, more, c.index, c.brackets⟩ := by
    rw [advance_eq (by rw [hhead, hname]; decide), hrest]
    rfl
  refine .name (by rw [hsettle, hhead, Opening.ofLexeme?, hname]) ?_
  rw [hsettle, hadvance, hhead]
  exact readName_eq_ok_iff.mpr (.inl ⟨hdouble, htriple, rfl, rfl⟩)

/-- The place behind a link. -/
def behind (c : Cursor) (link : Link) (more : List Lexeme) : Cursor :=
  ⟨c.index + link.lexemes.length, more, c.index + 1 + link.breaks.length, c.brackets⟩

/-- Behind an operator, the line breaks are passed and the name of its link is read. -/
theorem reads_operand {c : Cursor} {link : Link} {more : List Lexeme}
    (hrest : c.rest = link.lexemes ++ more)
    (hdouble : (more.headD .endOfInput).kind ≠ .doubleColon)
    (htriple : (more.headD .endOfInput).kind ≠ .tripleColon) :
    Reads .operand c.advance.skipNewlines (link.operandAt c.index) (behind c link more) := by
  have hhead : c.head = link.operator := by rw [Cursor.head, hrest]; rfl
  have hadvance : c.advance =
      ⟨c.index + 1, link.breaks ++ link.operand :: more, c.index, c.brackets⟩ := by
    rw [advance_eq (by rw [hhead]; exact link.operator_ne rfl), hrest]
    simp [Link.lexemes]
  have hpassed : ∀ lexeme ∈ link.breaks, (lexeme.kind == .newline) = true := fun lexeme hmem => by
    rw [link.breaks_newline lexeme hmem]
    rfl
  have hskip : c.advance.skipNewlines =
      ⟨c.index + 1 + link.breaks.length, link.operand :: more, c.index, c.brackets⟩ := by
    rw [hadvance, skipNewlines, skipWhile_of_append rfl hpassed, skipWhile_of_head]
    simp [Cursor.head, link.operand_identifier]
  have hbehind : behind c link more =
      ⟨c.index + 1 + link.breaks.length + 1, more, c.index + 1 + link.breaks.length,
        c.brackets⟩ := by
    simp [behind, Link.lexemes]
    omega
  rw [hskip, hbehind]
  exact reads_name rfl link.operand_identifier hdouble htriple

/-- Behind what has been read already, links are read as the tree of their joints. -/
structure LinksRead (power : Nat) (left : Expr) (c : Cursor) (links : List Link)
    (more : List Lexeme) (e : Expr) (c' : Cursor) : Prop where
  reads : Reads (.continuation power left) c e c'
  tree : Tree left (Joint.ofLinks c.index links) e
  rest : c'.rest = more
  index : c'.index = c.index + (links.flatMap Link.lexemes).length
  stop : e.range.stop = c'.last + 1

/-- No link is read where the chain ends. -/
theorem linksRead_nil {power : Nat} {left : Expr} {c : Cursor}
    (hends : EndsAt power (c.rest.headD .endOfInput)) (hleft : left.range.stop = c.last + 1) :
    LinksRead power left c [] c.rest left c := by
  have hsettle : c.settle = c := settle_of_head hends.ne_newline
  have hdone : Reads (.continuation power left) c left c.settle :=
    .done (by rw [hsettle]; exact hends.loose)
  rw [hsettle] at hdone
  exact ⟨hdone, .operand left, rfl, rfl, hleft⟩

/-- A link is read with those that its operator takes in, and then the others behind all these. -/
theorem LinksRead.cons {power : Nat} {left right e : Expr} {c c₁ c₂ : Cursor} {link : Link}
    {inner outer : List Link} {more : List Lexeme}
    (hrest : c.rest = (link :: inner ++ outer).flatMap Link.lexemes ++ more)
    (hends : EndsAt link.level.rightPower ((outer.flatMap Link.lexemes ++ more).headD .endOfInput))
    (hpower : power ≤ link.level.leftPower)
    (hinner : ∀ other ∈ inner, link.level.rightPower ≤ other.level.leftPower)
    (houter : ∀ other ∈ outer.head?, other.level.leftPower < link.level.rightPower)
    (hright : LinksRead link.level.rightPower (link.operandAt c.index)
      (behind c link (inner.flatMap Link.lexemes ++ (outer.flatMap Link.lexemes ++ more))) inner
      (outer.flatMap Link.lexemes ++ more) right c₁)
    (hmore : LinksRead power (c₁.close left.range.start
      (.between link.operator c.index left right)) c₁ outer more e c₂) :
    LinksRead power left c (link :: inner ++ outer) more e c₂ := by
  have hhead : c.head = link.operator := by rw [Cursor.head, hrest]; rfl
  have hsettle : c.settle = c := settle_of_head (by rw [hhead]; exact link.operator_ne rfl)
  have hoperand : Reads .operand c.advance.skipNewlines (link.operandAt c.index)
      (behind c link (inner.flatMap Link.lexemes ++ (outer.flatMap Link.lexemes ++ more))) :=
    reads_operand (by rw [hrest]; simp) (kind_head_ne rfl hends.ne_doubleColon)
      (kind_head_ne rfl hends.ne_tripleColon)
  have hcount : c₂.index = c.index + ((link :: inner ++ outer).flatMap Link.lexemes).length := by
    rw [hmore.index, hright.index]
    simp [behind, Nat.add_assoc]
  have hreads : Reads (.continuation power left) c e c₂ := by
    have hkind : Continuation.ofKind? c.settle.head.kind = some (.between link.level) := by
      rw [hsettle, hhead]
      exact link.ofKind?_operator
    have hside : Reads (.expression link.level.rightPower) c.settle.advance.skipNewlines right
        c₁ := by
      rw [hsettle]
      exact .expression hoperand hright.reads
    refine .between hkind hpower hside ?_
    rw [hsettle, hhead]
    exact hmore.reads
  refine ⟨hreads, ?_, hmore.rest, hcount, hmore.stop⟩
  -- The expression of the operator stops where its right operand does.
  have hjoin : c₁.close left.range.start (.between link.operator c.index left right) =
      Joint.join ⟨link.operator, link.level, c.index, link.operandAt c.index⟩ left right := by
    rw [Cursor.close, Joint.join, hright.stop]
  have htree := hmore.tree
  rw [hjoin, hright.index] at htree
  rw [List.cons_append, Joint.ofLinks, Joint.ofLinks_append]
  refine Tree.cons hright.tree htree ?_ ?_
  · exact Joint.forall_mem_ofLinks (P := fun level => link.level.rightPower ≤ level.leftPower).mpr
      hinner
  · intro joint hjoint
    cases outer with
    | nil => cases hjoint
    | cons other outer =>
      cases hjoint
      exact houter other rfl

/-- **Links are read as the tree of their joints**, as far as all of them bind strongly enough. -/
theorem exists_linksRead {links : List Link} {power : Nat} {left : Expr} {c : Cursor}
    {more : List Lexeme} (hrest : c.rest = links.flatMap Link.lexemes ++ more)
    (hends : EndsAt power (more.headD .endOfInput))
    (hlinks : ∀ link ∈ links, power ≤ link.level.leftPower)
    (hleft : left.range.stop = c.last + 1) :
    ∃ e c', LinksRead power left c links more e c' := by
  induction hlength : links.length using Nat.strong_induction_on
    generalizing links power left c more with
  | h n ih =>
    cases links with
    | nil =>
      obtain rfl : c.rest = more := hrest
      exact ⟨left, c, linksRead_nil hends hleft⟩
    | cons link links =>
      -- The operator takes in the links up to the first one that binds too loosely for it.
      obtain ⟨inner, outer, rfl, hinner, houter⟩ := link.exists_taken links
      have hpower := hlinks link List.mem_cons_self
      have hends' : EndsAt link.level.rightPower
          ((outer.flatMap Link.lexemes ++ more).headD .endOfInput) := by
        cases outer with
        | nil => exact hends.right hpower
        | cons other outer => exact endsAt_operator other (houter other rfl)
      have hshort : inner.length + outer.length < n := by simp_all; omega
      obtain ⟨right, c₁, hright⟩ : ∃ right c₁,
          LinksRead link.level.rightPower (link.operandAt c.index)
            (behind c link (inner.flatMap Link.lexemes ++ (outer.flatMap Link.lexemes ++ more)))
            inner (outer.flatMap Link.lexemes ++ more) right c₁ :=
        ih inner.length (by omega) rfl hends' hinner rfl rfl
      obtain ⟨e, c₂, hmore⟩ : ∃ e c₂,
          LinksRead power (c₁.close left.range.start
            (.between link.operator c.index left right)) c₁ outer more e c₂ :=
        ih outer.length (by omega) hright.rest hends
          (fun other hmem => hlinks other (by simp [hmem])) rfl rfl
      exact ⟨e, c₂, .cons hrest hends' hpower hinner houter hright hmore⟩

/-- The tree of a chain. -/
def IsTree (chain : Chain) (e : Expr) : Prop := Tree chain.head chain.joints e

/-- A chain is one expression, and its tree. -/
theorem exists_readAll (chain : Chain) : ∃ e, readAll chain.row = .ok [e] ∧ chain.IsTree e := by
  have hrow : (ofLexemes chain.row).rest =
      chain.first :: (chain.links.flatMap Link.lexemes ++ [.endOfInput]) := rfl
  have hends : EndsAt Level.lowest.binding .endOfInput := ⟨nofun, nofun, nofun, nofun⟩
  have hname := reads_name hrow chain.first_identifier (kind_head_ne rfl hends.ne_doubleColon)
    (kind_head_ne rfl hends.ne_tripleColon)
  have hlowest : ∀ link ∈ chain.links, Level.lowest.binding ≤ link.level.leftPower :=
    fun _ _ => Nat.zero_le _
  obtain ⟨e, c', he⟩ : ∃ e c', LinksRead Level.lowest.binding chain.head
      ⟨1, chain.links.flatMap Link.lexemes ++ [.endOfInput], 0, []⟩ chain.links [.endOfInput] e c' :=
    exists_linksRead rfl hends hlowest rfl
  have hskip : (ofLexemes chain.row).skipSeparators = ofLexemes chain.row :=
    skipWhile_of_head (by simp [Cursor.head, hrow, chain.first_identifier])
  have hhead : c'.head.kind = .endOfInput := by rw [Cursor.head, he.rest]; rfl
  have hskip' : c'.skipSeparators = c' := skipWhile_of_head (by rw [hhead]; rfl)
  refine ⟨e, readAll_eq_ok_iff.mpr ⟨c'.skipSeparators, ?_⟩, he.tree⟩
  refine .statement ?_ (hskip.symm ▸ .expression hname he.reads)
    (expectEnd_eq_ok_iff.mpr (.inr (.inr hhead))) (.noStatements ?_)
  · rw [hskip, Cursor.head, hrow]
    simp [chain.first_identifier]
  · rw [hskip', hhead]

/-- **A chain of operators is read as its tree.**  Tokens that are written like a chain are a script
of one expression, which is the one tree of the chain: at the root stands the loosest operator, the
first one of its level if that associates to the right and else the last one, and the same holds on
either side of it. -/
theorem ofTokens_chain {chain : Chain} {tokens : List Token}
    (h : tokens.map Token.toLexeme = chain.row) :
    ∃ e, Script.ofTokens tokens = .ok ⟨tokens.toArray, [e]⟩ ∧ ∀ e', chain.IsTree e' ↔ e' = e := by
  obtain ⟨e, hread, htree⟩ := chain.exists_readAll
  refine ⟨e, ?_, fun e' => ⟨htree.unique, fun heq => heq ▸ htree⟩⟩
  rw [Script.ofTokens, h, hread]

/-- Levels that associate to either side, and line breaks behind an operator. -/
theorem ofTokens_chain_mixed :
    ∃ (chain : Chain) (tokens : List Token),
      Token.scan "x <- a - b ^\n\nc ^ d - e" = .ok tokens ∧
      tokens.map Token.toLexeme = chain.row ∧
      ∃ e, Script.ofTokens tokens = .ok ⟨tokens.toArray, [e]⟩ ∧
        ∀ e', chain.IsTree e' ↔ e' = e := by
  let chain : Chain :=
    { first := ⟨.identifier, "x"⟩
      first_identifier := rfl
      links :=
        [⟨⟨.leftAssign, "<-"⟩, .leftAssign, [], ⟨.identifier, "a"⟩, rfl, nofun, rfl⟩,
          ⟨⟨.minus, "-"⟩, .term, [], ⟨.identifier, "b"⟩, rfl, nofun, rfl⟩,
          ⟨⟨.caret, "^"⟩, .power, [⟨.newline, "\n"⟩, ⟨.newline, "\n"⟩], ⟨.identifier, "c"⟩, rfl,
            by decide, rfl⟩,
          ⟨⟨.caret, "^"⟩, .power, [], ⟨.identifier, "d"⟩, rfl, nofun, rfl⟩,
          ⟨⟨.minus, "-"⟩, .term, [], ⟨.identifier, "e"⟩, rfl, nofun, rfl⟩] }
  have hscan : ((Token.scan "x <- a - b ^\n\nc ^ d - e").toOption.map
      (List.map Token.toLexeme)) = some chain.row := by decide +kernel
  obtain ⟨tokens, htokens, hrow⟩ := Option.map_eq_some_iff.mp hscan
  cases hresult : Token.scan "x <- a - b ^\n\nc ^ d - e" with
  | error fault =>
    rw [hresult] at htokens
    cases htokens
  | ok found =>
    rw [hresult] at htokens
    cases htokens
    exact ⟨chain, tokens, rfl, hrow, ofTokens_chain hrow⟩

end Chain
end TypeDrift
