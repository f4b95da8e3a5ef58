import TypeDrift.Proofs.Expr.Nesting

/-! # Where blocks are read

The blocks in what a call reads were read by it: they lie between the place where it begins and the
place where it stops.  Only the blocks of an expression that it goes on with were there before
(`Reads.blocks`).  So the index of a lexeme inside a block tells which of several readers has read
the block, and whoever comes before or behind that one has not met the lexeme.

Where line breaks end expressions, a reader that has read an expression stops right behind the lexeme
that it has taken last (`Reads.stops`), and the range of the expression is all that was passed.
-/
namespace TypeDrift

/-- A block of expressions between braces. -/
def Form.isBlock {ε : Type} : Form ε → Bool
  | block _ => true
  | _ => false

theorem Form.isBlock_between {ε : Type} (operator : Lexeme) (place : Nat) (left right : ε) :
    (between operator place left right).isBlock = false := by
  unfold between
  split
  · rfl
  · split <;> rfl

theorem Opening.isBlock_leaf {lexeme : Lexeme} {form : Form Expr}
    (h : ofLexeme? lexeme = some (.leaf form)) : form.isBlock = false := by
  obtain ⟨kind, text⟩ := lexeme
  cases kind with
  | keyword word => cases word <;> cases h <;> rfl
  | _ => first | (cases h; rfl) | cases h

namespace Cursor

/-- The lexeme right before this place is the one taken last. -/
def Adjacent (c : Cursor) : Prop := c.last + 1 = c.index

theorem adjacent_advance {c : Cursor} (h : c.head.kind ≠ .endOfInput) : c.advance.Adjacent := by
  rw [Adjacent, last_advance h, index_advance h]

theorem settle_of_endsAtNewline {c : Cursor} (h : c.endsAtNewline = true) : c.settle = c := if_pos h

/-- Whether line breaks end expressions is a matter of the open brackets. -/
theorem endsAtNewline_congr {c d : Cursor} (h : d.brackets = c.brackets) :
    d.endsAtNewline = c.endsAtNewline := by rw [endsAtNewline, h, endsAtNewline]

/-- Every place lies in some row. -/
theorem exists_in (c : Cursor) : ∃ row, c.In row :=
  ⟨List.replicate c.index .endOfInput ++ c.rest, by
    rw [In, List.drop_left' List.length_replicate]⟩

end Cursor

namespace Expr

open Cursor

/-- The blocks in some expressions lie from one index up to another, but for those that are known. -/
def BlocksWithin (known : List Expr) (lo hi : Nat) (es : List Expr) : Prop :=
  ∀ node ∈ preorderAll es, node.form.isBlock = true →
    node ∈ preorderAll known ∨ lo ≤ node.range.start ∧ node.range.stop ≤ hi

theorem filterMap_cons_eq_append {α : Type} (f : α → Option Expr) (a : α) (rest : List α) :
    (a :: rest).filterMap f = (f a).toList ++ rest.filterMap f := by
  simp only [List.filterMap_eq_flatMap_toList, List.flatMap_cons]

theorem mem_preorderAll_append {node : Expr} {es fs : List Expr} :
    node ∈ preorderAll (es ++ fs) ↔ node ∈ preorderAll es ∨ node ∈ preorderAll fs := by
  rw [preorderAll, List.flatMap_append, List.mem_append]
  rfl

/-- In an expression that is closed there is the expression itself, and what is in its parts. -/
theorem mem_preorderAll_close {node : Expr} {c : Cursor} {start : Nat} {form : Form Expr} :
    node ∈ preorderAll [c.close start form] ↔
      node = c.close start form ∨ node ∈ preorderAll form.children := by
  rw [preorderAll, List.flatMap_singleton, preorder_eq, List.mem_cons]
  rfl

namespace BlocksWithin

variable {known known' es fs : List Expr} {lo lo' hi hi' : Nat} {c d c' d' : Cursor}

theorem nil : BlocksWithin known lo hi [] := nofun

theorem self : BlocksWithin es lo hi es := fun _ hnode _ => .inl hnode

theorem mono (h : BlocksWithin known lo hi es) (hlo : lo' ≤ lo) (hhi : hi ≤ hi') :
    BlocksWithin known lo' hi' es := fun node hnode hblock =>
  (h node hnode hblock).imp_right fun hwithin =>
    ⟨Nat.le_trans hlo hwithin.1, Nat.le_trans hwithin.2 hhi⟩

/-- What is read between two places is read between any two around them. -/
theorem reach (h : BlocksWithin known d.index d'.index es) (hc : c.Reaches d)
    (hc' : d'.Reaches c') : BlocksWithin known c.index c'.index es :=
  h.mono hc.index_le hc'.index_le

theorem append (h : BlocksWithin known lo hi es) (h' : BlocksWithin known lo hi fs) :
    BlocksWithin known lo hi (es ++ fs) := fun node hnode hblock =>
  (mem_preorderAll_append.mp hnode).elim (h node · hblock) (h' node · hblock)

theorem cons {e : Expr} (h : BlocksWithin known lo hi [e]) (h' : BlocksWithin known lo hi es) :
    BlocksWithin known lo hi (e :: es) := h.append h'

theorem through (h : BlocksWithin known' lo hi es) (hknown : BlocksWithin known lo hi known') :
    BlocksWithin known lo hi es := fun node hnode hblock =>
  (h node hnode hblock).elim (hknown node · hblock) .inr

theorem weaken (h : BlocksWithin [] lo hi es) : BlocksWithin known lo hi es :=
  h.through nil

theorem filterMap_cons {α : Type} {f : α → Option Expr} {a : α} {rest : List α}
    (h : BlocksWithin known lo hi (f a).toList) (h' : BlocksWithin known lo hi (rest.filterMap f)) :
    BlocksWithin known lo hi ((a :: rest).filterMap f) :=
  filterMap_cons_eq_append f a rest ▸ h.append h'

theorem closed {start : Nat} {form : Form Expr} (h : BlocksWithin known lo hi form.children)
    (hform : form.isBlock = false) : BlocksWithin known lo hi [c.close start form] := by
  intro node hnode hblock
  rcases mem_preorderAll_close.mp hnode with rfl | hnode
  · exact absurd hblock (Bool.eq_false_iff.mp hform)
  · exact h node hnode hblock

/-- An expression that goes on with another one has its blocks, and those of what follows. -/
theorem goes_on {left : Expr} {form : Form Expr} {parts : List Expr} {start : Nat}
    (hleft : BlocksWithin [] 0 lo [left]) (hparts : BlocksWithin [] lo' hi parts) (hle : lo ≤ hi)
    (hchildren : form.children = left :: parts) (hform : form.isBlock = false) :
    BlocksWithin [] 0 hi [c.close start form] := by
  refine closed ?_ hform
  rw [hchildren]
  exact (hleft.mono (Nat.le_refl _) hle).cons (hparts.mono (Nat.zero_le _) (Nat.le_refl _))

theorem closed_block {start : Nat} {body : List Expr} (h : BlocksWithin known lo hi body)
    (hlo : lo ≤ start) (hhi : c.last + 1 ≤ hi) :
    BlocksWithin known lo hi [c.close start (.block body)] := by
  intro node hnode hblock
  rcases mem_preorderAll_close.mp hnode with rfl | hnode
  · exact .inr ⟨hlo, hhi⟩
  · exact h node hnode hblock

theorem of_readName {start : Nat} {first : Lexeme} {e : Expr}
    (h : readName start first c = .ok (e, c')) : BlocksWithin known lo hi [e] := by
  rcases readName_eq_ok_iff.mp h with ⟨-, -, -, rfl⟩ | ⟨-, name, -, -, rfl⟩
  · exact closed nil rfl
  · exact closed nil rfl

theorem of_readMember {left e : Expr} {slot : Bool} (h : readMember left slot c = .ok (e, c')) :
    BlocksWithin [left] lo hi [e] := by
  obtain ⟨name, -, -, rfl⟩ := readMember_eq_ok_iff.mp h
  exact closed self rfl

end BlocksWithin

open BlocksWithin

/-- **The blocks in what is read were read**, or are in what the reader goes on with. -/
theorem Reads.blocks {task : Task} {c c' : Cursor} {result : task.Result}
    (h : Reads task c result c') :
    BlocksWithin task.left?.toList c.index c'.index (task.parts result) := by
  induction h with
  | expression hleft hmore ihleft ihmore =>
    exact (ihmore.reach hleft.reaches (.refl _)).through (ihleft.reach (.refl _) hmore.reaches)
  | done => exact self
  | @call power left e given c _ _ _ _ hgiven hmore ihgiven ihmore
  | @index power left e given c _ _ _ _ hgiven hmore ihgiven ihmore =>
    have hinside := reaches_settle_advance c
    exact (ihmore.reach (hinside.trans hgiven.reaches) (.refl _)).through
      (closed (self.append (ihgiven.reach hinside hmore.reaches).weaken) rfl)
  | @doubleIndex power left e given c c₁ _ _ _ hgiven _ hmore ihgiven ihmore =>
    have hinside := reaches_settle_advance c
    have hclose := reaches_settle_advance c₁
    exact (ihmore.reach (hinside.trans (hgiven.reaches.trans hclose)) (.refl _)).through
      (closed (self.append (ihgiven.reach hinside (hclose.trans hmore.reaches)).weaken) rfl)
  | member _ _ hmember _ ihmore =>
    exact (ihmore.reach ((reaches_settle_advance _).trans (reaches_readMember hmember))
      (.refl _)).through (of_readMember hmember)
  | @between power level left right e c c₁ c₂ _ _ hright hmore ihright ihmore =>
    have hahead := (reaches_settle_advance c).trans (reaches_skipNewlines _)
    refine (ihmore.reach (hahead.trans hright.reaches) (.refl _)).through
      (closed ?_ (Form.isBlock_between _ _ _ _))
    rw [Form.children_between]
    exact self.append (ihright.reach hahead hmore.reaches).weaken
  | leaf hopening =>
    refine closed ?_ (Opening.isBlock_leaf hopening)
    rw [(children_leaf hopening).1]
    exact nil
  | name _ hname => exact of_readName hname
  | paren _ _ _ ihinner =>
    exact closed (ihinner.reach (reaches_settle_advance _) (reaches_settle_advance _)) rfl
  | @block body c c₁ _ hbody ihbody =>
    have hend : c₁.head.kind ≠ .endOfInput := by
      rw [hbody.head_of_statements rfl]
      decide
    refine (ihbody.reach (reaches_settle_advance c) (reaches_advance c₁)).closed_block
      (reaches_settle c).index_le ?_
    rw [leave, last_advance hend, index_advance hend]
  | sign _ _ ihinner | tilde _ _ ihinner | repeatLoop _ _ ihinner =>
    exact closed (ihinner.reach ((reaches_settle_advance _).trans (reaches_skipNewlines _))
      (.refl _)) rfl
  | @function given body c c₁ c₂ _ _ hgiven hbody ihgiven ihbody =>
    have hinside := (reaches_settle_advance c).trans (reaches_settle_advance _)
    have hahead := reaches_skipNewlines c₁
    exact closed ((ihgiven.reach hinside (hahead.trans hbody.reaches)).append
      (ihbody.reach (hinside.trans (.trans hgiven.reaches hahead)) (.refl _))) rfl
  | @conditional condition consequent alternative c c₁ c₂ c₃ _ hcondition hconsequent halternative
      ihcondition ihconsequent ihalternative =>
    have hinside := reaches_settle_advance c
    have hbranch := hinside.trans hcondition.reaches
    exact closed (append (cons
      (ihcondition.reach hinside (hconsequent.reaches.trans halternative.reaches))
      (ihconsequent.reach hbranch halternative.reaches))
      (ihalternative.reach (hbranch.trans hconsequent.reaches) (.refl _))) rfl
  | @forLoop sequence body c c₁ c₂ c₃ _ _ hinside _ _ hsequence _ hbody ihsequence ihbody =>
    subst hinside
    have hin : c.Reaches
        (c.settle.advance.settle.advance.enter .round).settle.advance.settle.advance :=
      (reaches_settle_advance c).trans ((reaches_settle_advance _).trans
        (.trans (reaches_settle_advance (enter _ .round)) (reaches_settle_advance _)))
    have hclose : c₂.Reaches c₂.settle.advance.leave.skipNewlines :=
      (reaches_settle_advance c₂).trans (reaches_skipNewlines (leave _))
    exact closed (cons (ihsequence.reach hin (hclose.trans hbody.reaches))
      (ihbody.reach (hin.trans (hsequence.reaches.trans hclose)) (.refl _))) rfl
  | @whileLoop condition body c _ _ _ hcondition hbody ihcondition ihbody =>
    have hinside := reaches_settle_advance c
    exact closed (cons (ihcondition.reach hinside hbody.reaches)
      (ihbody.reach (hinside.trans hcondition.reaches) (.refl _))) rfl
  | header _ _ _ ihcondition =>
    exact ihcondition.reach (reaches_settle_advance _)
      ((reaches_settle_advance _).trans (reaches_skipNewlines (leave _)))
  | elseBranch _ _ ihbranch =>
    exact ihbranch.reach ((reaches_beforeElse _).trans
      ((reaches_advance _).trans (reaches_skipNewlines _))) (.refl _)
  | noElse | noStatements | noArguments | noValue | noParameters | noFallback => exact nil
  | @statement terminator first others c _ _ _ hfirst _ hothers ihfirst ihothers =>
    have hahead := reaches_skipSeparators c
    exact cons (ihfirst.reach hahead hothers.reaches)
      (ihothers.reach (hahead.trans hfirst.reaches) (.refl _))
  | someArguments _ _ ihgiven | someParameters _ _ ihgiven =>
    exact ihgiven.reach (reaches_settle _) (.refl _)
  | lastArgument _ _ ihfirst =>
    exact filterMap_cons (ihfirst.reach (.refl _) (reaches_settle_advance _)) nil
  | @moreArguments closer first others c c₁ _ hfirst _ hothers ihfirst ihothers =>
    have hcomma := reaches_settle_advance c₁
    exact filterMap_cons (ihfirst.reach (.refl _) (hcomma.trans hothers.reaches))
      (ihothers.reach (hfirst.reaches.trans hcomma) (.refl _))
  | namedArgument _ _ _ ihvalue =>
    exact ihvalue.reach ((reaches_settle_advance _).trans (reaches_settle_advance _)) (.refl _)
  | plainArgument _ _ ihvalue | value _ _ ihvalue =>
    exact ihvalue.reach (reaches_settle _) (.refl _)
  | lastParameter _ _ _ ihfallback =>
    exact filterMap_cons (ihfallback.reach (reaches_settle_advance _) (reaches_settle_advance _)) nil
  | @moreParameters fallback others c c₁ _ _ hfallback _ hothers ihfallback ihothers =>
    have hname := reaches_settle_advance c
    have hcomma := reaches_settle_advance c₁
    exact filterMap_cons (ihfallback.reach hname (hcomma.trans hothers.reaches))
      (ihothers.reach (hname.trans (hfallback.reaches.trans hcomma)) (.refl _))
  | fallback _ _ ihvalue => exact ihvalue.reach (reaches_settle_advance _) (.refl _)

/-! ## Where expressions stop -/

/-- Where a call stops: right behind the lexeme taken last, if that is the end of a bracket, or the
end of an expression that a line break ends. -/
def Task.Stops : Task → Cursor → Cursor → Prop
  | expression _, c, c' | operand, c, c' => c.endsAtNewline = true → c'.Adjacent
  | continuation .., c, c' | alternative, c, c' =>
    c.endsAtNewline = true → c.Adjacent → c'.Adjacent
  | arguments _, _, c' | argumentsFrom _, _, c' | parameters, _, c' | parametersFrom, _, c' =>
    c'.Adjacent
  | _, _, _ => True

/-- **Where line breaks end expressions**, a reader stops right behind the expression. -/
theorem Reads.stops {task : Task} {c c' : Cursor} {result : task.Result}
    (h : Reads task c result c') : task.Stops c c' := by
  have hsame {c d : Cursor} (h : c.endsAtNewline = true) (hd : d.brackets = c.brackets) :
      d.endsAtNewline = true := (endsAtNewline_congr hd).trans h
  induction h with
  | expression hleft _ ihleft ihmore =>
    exact fun hends => ihmore (hsame hends (by simp [hleft.brackets, Task.closes])) (ihleft hends)
  | done =>
    intro hends hadjacent
    rwa [settle_of_endsAtNewline hends]
  | call _ _ hgiven _ ihgiven ihmore | index _ _ hgiven _ ihgiven ihmore =>
    exact fun hends _ => ihmore (hsame hends (by simp [hgiven.brackets, Task.closes])) ihgiven
  | doubleIndex _ _ hgiven hclose _ _ ihmore =>
    exact fun hends _ => ihmore (hsame hends (by simp [hgiven.brackets, Task.closes]))
      (adjacent_advance (by rw [hclose]; decide))
  | member _ _ hmember _ ihmore =>
    intro hends _
    refine ihmore (hsame hends (by simp [brackets_readMember hmember])) ?_
    obtain ⟨name, hname, rfl, -⟩ := readMember_eq_ok_iff.mp hmember
    exact adjacent_advance (kind_ne_endOfInput_of_memberName? hname)
  | between _ _ hright _ ihright ihmore =>
    exact fun hends _ => ihmore (hsame hends (by simp [hright.brackets, Task.closes]))
      (ihright (hsame hends (by simp)))
  | leaf hopening => exact fun _ => adjacent_advance (Opening.kind_ne_endOfInput hopening)
  | name hopening hname =>
    intro _
    rcases readName_eq_ok_iff.mp hname with ⟨-, -, rfl, -⟩ | ⟨-, name, hmember, rfl, -⟩
    · exact adjacent_advance (Opening.kind_ne_endOfInput hopening)
    · exact adjacent_advance (kind_ne_endOfInput_of_memberName? hmember)
  | paren _ _ hclose => exact fun _ => adjacent_advance (by rw [hclose]; decide)
  | block _ hbody =>
    exact fun _ => adjacent_advance (by rw [hbody.head_of_statements rfl]; decide)
  | sign _ _ ihinner | tilde _ _ ihinner | repeatLoop _ _ ihinner =>
    exact fun hends => ihinner (hsame hends (by simp))
  | function _ _ hgiven _ _ ihbody =>
    exact fun hends => ihbody (hsame hends (by simp [hgiven.brackets, Task.closes]))
  | conditional _ hcondition hconsequent _ _ ihconsequent ihalternative =>
    intro hends
    have hbranch := hsame hends (d := _) (by simpa [Task.closes] using hcondition.brackets)
    exact ihalternative (hsame hbranch (by simp [hconsequent.brackets, Task.closes]))
      (ihconsequent hbranch)
  | forLoop _ _ hinside _ _ hsequence _ _ _ ihbody =>
    subst hinside
    exact fun hends => ihbody (hsame hends (by simp [hsequence.brackets, Task.closes]))
  | whileLoop _ hcondition _ _ ihbody =>
    exact fun hends => ihbody (hsame hends (by simp [hcondition.brackets, Task.closes]))
  | elseBranch _ _ ihbranch => exact fun hends _ => ihbranch (hsame hends (by simp))
  | noElse => exact fun _ hadjacent => hadjacent
  | @noArguments closer c hclose | @lastArgument closer _ _ c _ hclose =>
    exact adjacent_advance (by rw [hclose]; exact closer.kind_ne_endOfInput)
  | noParameters hclose | lastParameter _ _ hclose =>
    exact adjacent_advance (by rw [hclose]; decide)
  | someArguments _ _ ihgiven | someParameters _ _ ihgiven => exact ihgiven
  | moreArguments _ _ _ _ ihothers | moreParameters _ _ _ _ _ ihothers => exact ihothers
  | header | noStatements | statement | namedArgument | plainArgument | noValue | value | fallback
  | noFallback => trivial

/-- Where line breaks end expressions, the range of an expression is all that its reader passed. -/
theorem Reads.range_eq {power : Nat} {e : Expr} {c c' : Cursor} (h : Reads (.expression power) c e c')
    (hends : c.endsAtNewline = true) : e.range = ⟨c.index, c'.index⟩ := by
  obtain ⟨row, hrow⟩ := exists_in c
  have hread := h.laysOut hrow
  have hstop : e.range.stop = c'.index := hread.stop.trans (h.stops hends)
  have hstart := hread.start
  rw [settle_of_endsAtNewline hends] at hstart
  rw [← hstart, ← hstop]

end Expr
end TypeDrift
