import TypeDrift.Expr.Tree
import TypeDrift.Proofs.Expr.Progress

/-! # Expressions lie within what has been read

The indices in an expression are those of lexemes that were passed before its reader stopped
(`Reads.inside`).  An expression is closed with the lexeme taken last, so what is needed besides the
progress of the reader is that a lexeme has been taken at all (`Reads.taken`): a continuation relies
on the operand before it for that, and everything that closes an expression of its own takes one.
-/
namespace TypeDrift

namespace Cursor

/-- A lexeme has been taken, and it lies before this place. -/
def Taken (c : Cursor) : Prop := c.last < c.index

theorem taken_advance {c : Cursor} (h : c.head.kind ≠ .endOfInput) : c.advance.Taken := by
  rw [Taken, last_advance h, index_advance h]
  exact Nat.lt_succ_self _

theorem Taken.skipWhile {c : Cursor} (h : c.Taken) (p : Lexeme → Bool) : (c.skipWhile p).Taken :=
  Nat.lt_of_lt_of_le h (Nat.le_add_right _ _)

theorem Taken.settle {c : Cursor} (h : c.Taken) : c.settle.Taken := by
  unfold Cursor.settle
  split
  · exact h
  · exact h.skipWhile _

theorem Taken.advance {c : Cursor} (h : c.Taken) : c.advance.Taken := by
  by_cases hend : c.head.kind = .endOfInput
  · unfold Cursor.advance
    split
    · exact h
    · next lexeme rest hrest =>
      have hkind : lexeme.kind = .endOfInput := by simpa [head, hrest] using hend
      rwa [if_pos hkind]
  · exact taken_advance hend

end Cursor

/-- The index of its operator that an assignment holds. -/
def Form.place? {ε : Type} : Form ε → Option Nat
  | assign _ place _ _ => some place
  | _ => none

theorem Form.place?_between {ε : Type} {operator : Lexeme} {position place : Nat} {left right : ε}
    (h : place ∈ (between operator position left right).place?) : place = position := by
  unfold between at h
  split at h
  · exact (Option.some.inj h).symm
  · split at h <;> cases h

namespace Expr

open Cursor

/-- The indices that a node holds itself are below the limit, and its range is not empty. -/
structure Within (limit : Nat) (e : Expr) : Prop where
  start : e.range.start < limit
  stop_pos : 0 < e.range.stop
  stop : e.range.stop ≤ limit
  place : ∀ place ∈ e.form.place?, place < limit

/-- All indices in an expression are below the limit. -/
def Inside (limit : Nat) (e : Expr) : Prop := ∀ node ∈ e.preorder, node.Within limit

theorem inside_iff {limit : Nat} {e : Expr} :
    Inside limit e ↔ e.Within limit ∧ ∀ child ∈ e.children, Inside limit child :=
  forall_mem_preorder_iff

theorem Inside.mono {limit limit' : Nat} {e : Expr} (h : Inside limit e) (hle : limit ≤ limit') :
    Inside limit' e := fun node hnode =>
  have hwithin := h node hnode
  ⟨Nat.lt_of_lt_of_le hwithin.start hle, hwithin.stop_pos, Nat.le_trans hwithin.stop hle,
    fun place hplace => Nat.lt_of_lt_of_le (hwithin.place place hplace) hle⟩

/-- What lies within a limit does so with everything in it. -/
theorem Inside.of_mem_preorder {limit : Nat} {e node : Expr} (h : Inside limit e)
    (hnode : node ∈ e.preorder) : Inside limit node :=
  fun inner hinner => h inner (mem_preorder_trans hinner hnode)

theorem Inside.start_lt {limit : Nat} {e : Expr} (h : Inside limit e) : e.range.start < limit :=
  (inside_iff.mp h).1.start

/-- An expression that is closed lies within what has been read. -/
theorem inside_close {c : Cursor} {start : Nat} {form : Form Expr} (hc : c.Taken)
    (hstart : start < c.index) (hchildren : ∀ child ∈ form.children, Inside c.index child)
    (hplace : ∀ place ∈ form.place?, place < c.index) :
    Inside c.index (c.close start form) :=
  inside_iff.mpr ⟨⟨hstart, Nat.succ_pos _, hc, hplace⟩, hchildren⟩

theorem taken_readName {start : Nat} {first : Lexeme} {c c' : Cursor} {e : Expr} (hc : c.Taken)
    (h : readName start first c = .ok (e, c')) : c'.Taken := by
  rcases readName_eq_ok_iff.mp h with ⟨-, -, rfl, -⟩ | ⟨-, name, -, rfl, -⟩
  · exact hc
  · exact hc.advance.settle.advance

theorem taken_readMember {left e : Expr} {slot : Bool} {c c' : Cursor} (hc : c.Taken)
    (h : readMember left slot c = .ok (e, c')) : c'.Taken := by
  obtain ⟨name, -, rfl, -⟩ := readMember_eq_ok_iff.mp h
  exact (hc.skipWhile _).advance

theorem Reads.taken {task : Task} {c c' : Cursor} {result : task.Result}
    (h : Reads task c result c') (hc : task.takes = true ∨ c.Taken) : c'.Taken := by
  have hopen {opening : Opening} {c : Cursor} (h : Opening.ofLexeme? c.settle.head = some opening) :
      c.settle.advance.Taken := taken_advance (Opening.kind_ne_endOfInput h)
  have hclose (closer : Closer) {c : Cursor} (h : c.settle.head.kind = closer.kind) :
      c.settle.advance.leave.Taken := taken_advance (h ▸ closer.kind_ne_endOfInput)
  -- Only what may be empty needs a lexeme from before: it takes none itself.
  induction h with
  | expression _ _ ihleft ihmore => exact ihmore (.inr (ihleft (.inl rfl)))
  | done => exact (hc.resolve_left nofun).settle
  | call _ _ _ _ ihgiven ihmore | index _ _ _ _ ihgiven ihmore =>
    exact ihmore (.inr (ihgiven (.inl rfl)))
  | doubleIndex _ _ _ _ _ ihgiven ihmore =>
    exact ihmore (.inr (ihgiven (.inl rfl)).settle.advance)
  | member hkind _ hmember _ ihmore =>
    exact ihmore (.inr (taken_readMember
      (taken_advance (Continuation.kind_ne_endOfInput hkind)) hmember))
  | between _ _ _ _ ihright ihmore => exact ihmore (.inr (ihright (.inl rfl)))
  | leaf hopening => exact hopen hopening
  | name hopening hname => exact taken_readName (hopen hopening) hname
  | paren _ _ hclosing => exact hclose .paren hclosing
  | block hopening _ ihbody => exact (ihbody (.inr (hopen hopening))).advance
  | sign _ _ ih | tilde _ _ ih | repeatLoop _ _ ih => exact ih (.inl rfl)
  | function _ _ _ _ _ ihbody | forLoop _ _ _ _ _ _ _ _ _ ihbody | whileLoop _ _ _ _ ihbody =>
    exact ihbody (.inl rfl)
  | conditional _ _ _ _ _ ihconsequent ihalternative =>
    exact ihalternative (.inr (ihconsequent (.inl rfl)))
  | header _ _ hclosing => exact (hclose .paren hclosing).skipWhile _
  | elseBranch _ _ ihbranch => exact ihbranch (.inl rfl)
  | noElse => exact hc.resolve_left nofun
  | noStatements => exact (hc.resolve_left nofun).skipWhile _
  | statement _ _ _ _ ihfirst ihothers => exact ihothers (.inr (ihfirst (.inl rfl)))
  | noArguments hclosing => exact hclose _ hclosing
  | someArguments _ _ ih | someParameters _ _ ih => exact ih (.inl rfl)
  | lastArgument _ hclosing => exact hclose _ hclosing
  | moreArguments _ _ _ _ ihothers | moreParameters _ _ _ _ _ ihothers => exact ihothers (.inl rfl)
  | namedArgument _ _ _ ihvalue =>
    exact ihvalue (.inr (hc.resolve_left nofun).settle.advance.settle.advance)
  | plainArgument _ _ ihvalue => exact ihvalue (.inr (hc.resolve_left nofun).settle)
  | noValue | noFallback => exact (hc.resolve_left nofun).settle
  | value _ _ ihvalue | fallback _ _ ihvalue => exact ihvalue (.inl rfl)
  | noParameters hclosing => exact hclose .paren hclosing
  | lastParameter _ _ hclosing => exact hclose .paren hclosing

/-- The expressions in what a call answers with. -/
def Task.parts : (task : Task) → task.Result → List Expr
  | expression _, e | continuation .., e | operand, e | header, e => [e]
  | alternative, value | argumentValue _, value | fallback, value => Option.toList value
  | statements _, es => es
  | arguments _, given | argumentsFrom _, given => List.filterMap Argument.value given
  | argument _, given => (Argument.value given).toList
  | parameters, given | parametersFrom, given => List.filterMap Parameter.fallback given

/-- The expression that a call goes on with. -/
def Task.left? : Task → Option Expr
  | continuation _ left => some left
  | _ => none

theorem children_leaf {lexeme : Lexeme} {form : Form Expr}
    (h : Opening.ofLexeme? lexeme = some (.leaf form)) : form.children = [] ∧ form.place? = none := by
  obtain ⟨kind, text⟩ := lexeme
  cases kind with
  | keyword word => cases word <;> cases h <;> exact ⟨rfl, rfl⟩
  | _ => first | (cases h; exact ⟨rfl, rfl⟩) | cases h

theorem inside_readName {start : Nat} {first : Lexeme} {c c' : Cursor} {e : Expr} (hc : c.Taken)
    (hstart : start < c.index) (h : readName start first c = .ok (e, c')) : Inside c'.index e := by
  have hstart' := Nat.lt_of_lt_of_le hstart (Reads.reaches_readName h).index_le
  have htaken := taken_readName hc h
  rcases readName_eq_ok_iff.mp h with ⟨-, -, rfl, rfl⟩ | ⟨-, name, -, -, rfl⟩
  · exact inside_close htaken hstart' (List.forall_mem_nil _) (fun _ h => by cases h)
  · exact inside_close htaken hstart' (List.forall_mem_nil _) (fun _ h => by cases h)

theorem inside_readMember {left e : Expr} {slot : Bool} {c c' : Cursor} (hc : c.Taken)
    (hleft : Inside c.index left) (h : readMember left slot c = .ok (e, c')) :
    Inside c'.index e := by
  have hleft' := hleft.mono (Reads.reaches_readMember h).index_le
  have htaken := taken_readMember hc h
  obtain ⟨name, -, -, rfl⟩ := readMember_eq_ok_iff.mp h
  exact inside_close htaken hleft'.start_lt (List.forall_mem_singleton.mpr hleft')
    (fun _ h => by cases h)

theorem forall_mem_filterMap_cons {α β : Type} {f : α → Option β} {a : α} {rest : List α}
    {p : β → Prop} (ha : ∀ b ∈ (f a).toList, p b) (hrest : ∀ b ∈ rest.filterMap f, p b) :
    ∀ b ∈ (a :: rest).filterMap f, p b := by
  refine List.forall_mem_filterMap.mpr (List.forall_mem_cons.mpr ⟨fun b hb => ?_, ?_⟩)
  · exact ha b (Option.mem_toList.mpr hb)
  · exact List.forall_mem_filterMap.mp hrest

theorem lt_index {c c' : Cursor} (h : c.head.kind ≠ .endOfInput) (hreach : c.advance.Reaches c') :
    c.index < c'.index :=
  Nat.lt_of_lt_of_le (index_advance h ▸ Nat.lt_succ_self _) hreach.index_le

/-- **What is read lies within what has been read.** -/
theorem Reads.inside {task : Task} {c c' : Cursor} {result : task.Result}
    (h : Reads task c result c') (hleft : ∀ left ∈ task.left?, c.Taken ∧ Inside c.index left) :
    ∀ e ∈ task.parts result, Inside c'.index e := by
  have hgo {c : Cursor} {e : Expr} (htaken : c.Taken) (h : Inside c.index e) :
      ∀ left ∈ some e, c.Taken ∧ Inside c.index left := fun left hmem => by
    cases hmem
    exact ⟨htaken, h⟩
  have hone {c : Cursor} {e : Expr} (h : Inside c.index e) : ∀ e' ∈ [e], Inside c.index e' :=
    List.forall_mem_singleton.mpr h
  have hopen {opening : Opening} {c c₁ : Cursor}
      (h : Opening.ofLexeme? c.settle.head = some opening) (hreach : c.settle.advance.Reaches c₁) :
      c.settle.index < c₁.index := lt_index (Opening.kind_ne_endOfInput h) hreach
  -- What lies within a limit stays within it while the reader moves on.
  have hmono {es : List Expr} {c c₁ : Cursor} (h : ∀ e ∈ es, Inside c.index e)
      (hreach : c.Reaches c₁) : ∀ e ∈ es, Inside c₁.index e :=
    fun e hmem => (h e hmem).mono hreach.index_le
  induction h with
  | expression hfirst _ ihfirst ihmore =>
    exact ihmore (hgo (hfirst.taken (.inl rfl)) (ihfirst nofun _ List.mem_cons_self))
  | @done power left c hloose =>
    obtain ⟨-, hinside⟩ := hleft left rfl
    exact hone (hinside.mono (reaches_settle c).index_le)
  | @call power left _ given c c₁ _ hkind hpower hgiven _ ihgiven ihmore =>
    obtain ⟨-, hinside⟩ := hleft left rfl
    have htaken := hgiven.taken (.inl rfl)
    have hinside := hinside.mono (Reaches.trans (reaches_settle_advance c) hgiven.reaches).index_le
    exact ihmore (hgo htaken (inside_close htaken hinside.start_lt
      (List.forall_mem_cons.mpr ⟨hinside, ihgiven nofun⟩) nofun))
  | @index power left _ given c c₁ _ hkind hpower hgiven _ ihgiven ihmore =>
    obtain ⟨-, hinside⟩ := hleft left rfl
    have htaken := hgiven.taken (.inl rfl)
    have hinside := hinside.mono (Reaches.trans (reaches_settle_advance c) hgiven.reaches).index_le
    exact ihmore (hgo htaken (inside_close htaken hinside.start_lt
      (List.forall_mem_cons.mpr ⟨hinside, ihgiven nofun⟩) nofun))
  | @doubleIndex power left _ given c c₁ _ hkind hpower hgiven hclose _ ihgiven ihmore =>
    obtain ⟨-, hinside⟩ := hleft left rfl
    have htaken := (hgiven.taken (.inl rfl)).settle.advance
    have hreach := reaches_settle_advance c₁
    have hinside := hinside.mono
      ((Reaches.trans (reaches_settle_advance c) hgiven.reaches).trans hreach).index_le
    exact ihmore (hgo htaken (inside_close htaken hinside.start_lt
      (List.forall_mem_cons.mpr ⟨hinside, hmono (ihgiven nofun) hreach⟩) nofun))
  | @member power slot left _ _ c _ _ hkind hpower hmember _ ihmore =>
    obtain ⟨-, hinside⟩ := hleft left rfl
    have htaken := taken_advance (Continuation.kind_ne_endOfInput hkind)
    have hinside := hinside.mono (reaches_settle_advance c).index_le
    exact ihmore (hgo (taken_readMember htaken hmember) (inside_readMember htaken hinside hmember))
  | @between power level left right _ c c₁ _ hkind hpower hright _ ihright ihmore =>
    obtain ⟨-, hinside⟩ := hleft left rfl
    have htaken := hright.taken (.inl rfl)
    have hreach := Reaches.trans (reaches_skipNewlines c.settle.advance) hright.reaches
    have hinside := hinside.mono ((reaches_settle_advance c).trans hreach).index_le
    refine ihmore (hgo htaken (inside_close htaken hinside.start_lt ?_ fun place hplace => ?_))
    · rw [Form.children_between]
      exact List.forall_mem_cons.mpr ⟨hinside, ihright nofun⟩
    · rw [Form.place?_between hplace]
      exact lt_index (Continuation.kind_ne_endOfInput hkind) hreach
  | @leaf form c hopening =>
    obtain ⟨hchildren, hplace⟩ := children_leaf hopening
    refine hone (inside_close (taken_advance (Opening.kind_ne_endOfInput hopening))
      (hopen hopening (.refl _)) ?_ ?_)
    · rw [hchildren]
      exact nofun
    · rw [hplace]
      exact nofun
  | name hopening hname =>
    exact hone (inside_readName (taken_advance (Opening.kind_ne_endOfInput hopening))
      (hopen hopening (.refl _)) hname)
  | @paren inner c c₁ hopening hinner hclose ihinner =>
    have hreach : c₁.Reaches c₁.settle.advance.leave := reaches_settle_advance c₁
    refine hone (inside_close ((hinner.taken (.inl rfl)).settle.advance)
      (hopen hopening (Reaches.trans hinner.reaches hreach)) ?_ nofun)
    exact hmono (ihinner nofun) hreach
  | @block body c c₁ hopening hbody ihbody =>
    have hreach : c₁.Reaches c₁.advance.leave := reaches_advance c₁
    have htaken := hbody.taken (.inr (taken_advance (Opening.kind_ne_endOfInput hopening)))
    refine hone (inside_close htaken.advance
      (hopen hopening (Reaches.trans hbody.reaches hreach)) ?_ nofun)
    exact hmono (ihbody nofun) hreach
  | sign hopening hinner ihinner | tilde hopening hinner ihinner
  | repeatLoop hopening hinner ihinner =>
    exact hone (inside_close (hinner.taken (.inl rfl))
      (hopen hopening (Reaches.trans (reaches_skipNewlines _) hinner.reaches)) (ihinner nofun) nofun)
  | @function given body c c₁ c₂ hopening hopen' hgiven hbody ihgiven ihbody =>
    have hreach : c₁.Reaches c₂ := (reaches_skipNewlines c₁).trans hbody.reaches
    refine hone (inside_close (hbody.taken (.inl rfl)) (hopen hopening
      ((reaches_settle_advance _).trans (Reaches.trans hgiven.reaches hreach))) ?_ nofun)
    exact List.forall_mem_append.mpr ⟨hmono (ihgiven nofun) hreach, ihbody nofun⟩
  | @conditional condition consequent alternative c c₁ c₂ c₃ hopening hcondition hconsequent
      halternative ihcondition ihconsequent ihalternative =>
    have hreach := hconsequent.reaches.trans halternative.reaches
    -- Without an `else` the lexeme taken last is one of the branch before it.
    refine hone (inside_close (halternative.taken (.inr (hconsequent.taken (.inl rfl))))
      (hopen hopening (hcondition.reaches.trans hreach)) ?_ nofun)
    exact List.forall_mem_cons.mpr ⟨hmono (ihcondition nofun) hreach _ List.mem_cons_self,
      List.forall_mem_cons.mpr
        ⟨hmono (ihconsequent nofun) halternative.reaches _ List.mem_cons_self, ihalternative nofun⟩⟩
  | @forLoop sequence body c _ c₂ c₃ hopening hopen' hinside hcounter hin hsequence hclose hbody
      ihsequence ihbody =>
    subst hinside
    have hreach : c₂.Reaches c₃ := (Reaches.trans (reaches_settle_advance c₂)
      (reaches_skipNewlines c₂.settle.advance.leave)).trans hbody.reaches
    have hbefore : (c.settle.advance.settle.advance.enter .round).Reaches c₃ :=
      (reaches_settle_advance _).trans ((reaches_settle_advance _).trans
        (hsequence.reaches.trans hreach))
    refine hone (inside_close (hbody.taken (.inl rfl))
      (hopen hopening ((reaches_settle_advance _).trans hbefore)) ?_ nofun)
    exact List.forall_mem_cons.mpr
      ⟨hmono (ihsequence nofun) hreach _ List.mem_cons_self, ihbody nofun⟩
  | @whileLoop condition body c c₁ c₂ hopening hcondition hbody ihcondition ihbody =>
    refine hone (inside_close (hbody.taken (.inl rfl))
      (hopen hopening (hcondition.reaches.trans hbody.reaches)) ?_ nofun)
    exact List.forall_mem_cons.mpr
      ⟨hmono (ihcondition nofun) hbody.reaches _ List.mem_cons_self, ihbody nofun⟩
  | @header condition c c₁ hopen' hcondition hclose ihcondition =>
    exact hmono (ihcondition nofun)
      ((reaches_settle_advance c₁).trans (reaches_skipNewlines (leave _)))
  | elseBranch _ _ ihbranch => exact ihbranch nofun
  | noElse | noStatements | noArguments | noValue | noParameters | noFallback => exact nofun
  | statement _ _ _ hothers ihfirst ihothers =>
    exact List.forall_mem_cons.mpr
      ⟨hmono (ihfirst nofun) hothers.reaches _ List.mem_cons_self, ihothers nofun⟩
  | someArguments _ _ ih | someParameters _ _ ih => exact ih nofun
  | @lastArgument closer first c c₁ _ _ ihfirst =>
    exact forall_mem_filterMap_cons (hmono (ihfirst nofun) (reaches_settle_advance c₁)) nofun
  | moreArguments _ _ hothers ihfirst ihothers =>
    exact forall_mem_filterMap_cons
      (hmono (ihfirst nofun) ((reaches_settle_advance _).trans hothers.reaches)) (ihothers nofun)
  | namedArgument _ _ _ ihvalue | plainArgument _ _ ihvalue => exact ihvalue nofun
  | value _ _ ihvalue | fallback _ _ ihvalue => exact ihvalue nofun
  | @lastParameter fallback c c₁ _ _ _ ihfallback =>
    exact forall_mem_filterMap_cons (hmono (ihfallback nofun) (reaches_settle_advance c₁)) nofun
  | moreParameters _ _ _ hothers ihfallback ihothers =>
    exact forall_mem_filterMap_cons
      (hmono (ihfallback nofun) ((reaches_settle_advance _).trans hothers.reaches))
      (ihothers nofun)

end Expr
end TypeDrift
