import TypeDrift.Proofs.Expr.Reading

/-! # Progress

Reading only ever moves on (`Reads.reaches`), leaves the open brackets as they were but for the one
that it closes (`Reads.brackets`), and takes a lexeme wherever something has to come
(`Reads.length_lt`).
-/
namespace TypeDrift

theorem Cursor.kind_ne_of_not_isTrivia {lexeme : Lexeme} (h : lexeme.isTrivia = false) :
    lexeme.kind ≠ .newline ∧ lexeme.kind ≠ .endOfInput := by
  constructor <;> intro hkind <;> rw [Lexeme.isTrivia, hkind] at h <;> cases h

theorem Lexeme.isTrivia_of_kind {lexeme : Lexeme} {kind : Kind} (h : lexeme.kind = kind)
    (hkind : kind.isTrivia = false) : lexeme.isTrivia = false := by
  rw [isTrivia, h, hkind]

theorem Opening.isTrivia_eq_false {lexeme : Lexeme} {opening : Opening}
    (h : ofLexeme? lexeme = some opening) : lexeme.isTrivia = false := by
  obtain ⟨kind, text⟩ := lexeme
  cases kind <;> first | rfl | cases h

theorem Opening.kind_ne_endOfInput {lexeme : Lexeme} {opening : Opening}
    (h : ofLexeme? lexeme = some opening) : lexeme.kind ≠ .endOfInput :=
  (Cursor.kind_ne_of_not_isTrivia (isTrivia_eq_false h)).2

theorem Continuation.kind_ne_endOfInput {kind : Kind} {step : Continuation}
    (h : ofKind? kind = some step) : kind ≠ .endOfInput := by
  rintro rfl
  cases h

theorem Continuation.isTrivia_eq_false {lexeme : Lexeme} {step : Continuation}
    (h : ofKind? lexeme.kind = some step) : lexeme.isTrivia = false := by
  obtain ⟨kind, text⟩ := lexeme
  cases kind <;> first | rfl | cases h

namespace Cursor

@[simp] theorem brackets_beforeElse (c : Cursor) : c.beforeElse.brackets = c.brackets := by
  unfold beforeElse
  split <;> rfl

/-- A lexeme taken behind the line breaks that mean nothing. -/
theorem reaches_settle_advance (c : Cursor) : c.Reaches c.settle.advance :=
  (reaches_settle c).trans (reaches_advance _)

theorem length_settle_advance_lt {c : Cursor} (h : c.settle.head.kind ≠ .endOfInput) :
    c.settle.advance.rest.length < c.rest.length :=
  Nat.lt_of_lt_of_le (length_advance_lt h) (reaches_settle c).length_le

theorem reaches_beforeElse (c : Cursor) : c.Reaches c.beforeElse := by
  unfold beforeElse
  split
  · exact .refl c
  · exact reaches_skipNewlines c

theorem reaches_beforeElse_skipNewlines (c : Cursor) : c.beforeElse.Reaches c.skipNewlines := by
  unfold beforeElse
  split
  · exact reaches_skipNewlines c
  · exact .refl _

theorem reaches_beforeElse_skipSeparators (c : Cursor) : c.beforeElse.Reaches c.skipSeparators :=
  (reaches_beforeElse_skipNewlines c).trans (reaches_skipNewlines_skipSeparators c)

theorem beforeElse_eq_skipNewlines {c : Cursor} (h : c.beforeElse.head.kind ≠ .newline) :
    c.beforeElse = c.skipNewlines := by
  unfold beforeElse at h ⊢
  split
  · next hends =>
    rw [if_pos hends] at h
    exact (skipNewlines_of_head h).symm
  · rfl

end Cursor

namespace Expr

theorem Closer.kind_ne_endOfInput (closer : Closer) : closer.kind ≠ .endOfInput := by
  cases closer <;> decide

theorem Closer.isTrivia_eq_false (closer : Closer) {lexeme : Lexeme}
    (h : lexeme.kind = closer.kind) : lexeme.isTrivia = false := by
  refine Lexeme.isTrivia_of_kind h ?_
  cases closer <;> rfl

theorem Closer.kind_ne_newline (closer : Closer) : closer.kind ≠ .newline := by
  cases closer <;> decide

theorem Closer.kind_ne_identifier (closer : Closer) : closer.kind ≠ .identifier := by
  cases closer <;> decide

theorem Closer.kind_ne_comma (closer : Closer) : closer.kind ≠ .comma := by
  cases closer <;> decide

theorem isTrivia_of_memberName? {lexeme : Lexeme} {keywords : Bool} {name : String}
    (h : memberName? lexeme keywords = some name) : lexeme.isTrivia = false := by
  obtain ⟨kind, text⟩ := lexeme
  cases kind <;> first | rfl | cases h

theorem kind_ne_endOfInput_of_memberName? {lexeme : Lexeme} {keywords : Bool} {name : String}
    (h : memberName? lexeme keywords = some name) : lexeme.kind ≠ .endOfInput :=
  (Cursor.kind_ne_of_not_isTrivia (isTrivia_of_memberName? h)).2

theorem isTrivia_of_argumentName? {lexeme : Lexeme} {name : String}
    (h : argumentName? lexeme = some name) : lexeme.isTrivia = false := by
  obtain ⟨kind, text⟩ := lexeme
  cases kind <;> first | rfl | cases h

theorem kind_ne_endOfInput_of_argumentName? {lexeme : Lexeme} {name : String}
    (h : argumentName? lexeme = some name) : lexeme.kind ≠ .endOfInput :=
  (Cursor.kind_ne_of_not_isTrivia (isTrivia_of_argumentName? h)).2

/-- What ends an expression in a row of them. -/
theorem expectEnd_eq_ok_iff {terminator : Kind} {c : Cursor} :
    expectEnd terminator c = .ok () ↔
      c.head.kind = .newline ∨ c.head.kind = .semicolon ∨ c.head.kind = terminator := by
  unfold expectEnd
  split
  · next hend => exact ⟨fun _ => hend, fun _ => rfl⟩
  · next hgo => exact ⟨nofun, fun hend => absurd hend hgo⟩

/-- Where an expression has ended before what ends the row, a separator comes behind it. -/
theorem length_skipSeparators_lt {terminator : Kind} {c : Cursor}
    (hend : expectEnd terminator c = .ok ()) (hmore : c.skipSeparators.head.kind ≠ terminator) :
    c.skipSeparators.rest.length < c.rest.length := by
  have hseparator (h : c.head.kind = .newline ∨ c.head.kind = .semicolon) :
      c.skipSeparators.rest.length < c.rest.length := by
    have hrest := Cursor.rest_eq_cons (c := c) (by rcases h with h | h <;> rw [h] <;> decide)
    rw [Cursor.skipSeparators, Cursor.skipWhile, hrest, List.dropWhile_cons_of_pos (by simpa using h)]
    exact Nat.lt_succ_of_le (List.dropWhile_suffix _).length_le
  rcases expectEnd_eq_ok_iff.mp hend with h | h | h
  · exact hseparator (.inl h)
  · exact hseparator (.inr h)
  · by_cases hskip : c.head.kind = .newline ∨ c.head.kind = .semicolon
    · exact hseparator hskip
    · have hsame : c.skipSeparators = c := Cursor.skipWhile_of_head (by simpa using hskip)
      exact absurd h (hsame ▸ hmore)

/-- The innermost open bracket is the one whose end is read. -/
def Task.closes : Task → Bool
  | arguments _ | argumentsFrom _ | parameters | parametersFrom => true
  | _ => false

/-- The tasks that cannot be done without taking a lexeme. -/
def Task.takes : Task → Bool
  | expression _ | operand | header | arguments _ | argumentsFrom _ | parameters
  | parametersFrom => true
  | _ => false

/-- What is read as a name: a bare one where no colons come, and else one of a package. -/
theorem readName_eq_ok_iff {start : Nat} {first : Lexeme} {c c' : Cursor} {e : Expr} :
    readName start first c = .ok (e, c') ↔
      (c.head.kind ≠ .doubleColon ∧ c.head.kind ≠ .tripleColon ∧ c' = c ∧
        e = c.close start (.identifier first.name)) ∨
      ((c.head.kind = .doubleColon ∨ c.head.kind = .tripleColon) ∧
        ∃ name, memberName? c.advance.settle.head false = some name ∧
          c' = c.advance.settle.advance ∧
          e = c'.close start (.namespaced first.name name (c.head.kind == .tripleColon))) := by
  simp only [readName, Bool.or_eq_true, beq_iff_eq]
  by_cases hcolons : c.head.kind = .doubleColon ∨ c.head.kind = .tripleColon
  · rw [if_pos hcolons]
    have hplain : ¬(c.head.kind ≠ .doubleColon ∧ c.head.kind ≠ .tripleColon) :=
      fun h => hcolons.elim h.1 h.2
    cases memberName? c.advance.settle.head false with
    | none => simp_all
    | some name =>
      constructor
      · intro h
        cases h
        exact .inr ⟨hcolons, name, rfl, rfl, rfl⟩
      · rintro (⟨hdouble, htriple, -⟩ | ⟨-, name', hname, rfl, rfl⟩)
        · exact absurd ⟨hdouble, htriple⟩ hplain
        · cases hname
          rfl
  · rw [if_neg hcolons]
    obtain ⟨hdouble, htriple⟩ := not_or.mp hcolons
    constructor
    · intro h
      cases h
      exact .inl ⟨hdouble, htriple, rfl, rfl⟩
    · rintro (⟨-, -, rfl, rfl⟩ | ⟨hbad, -⟩)
      · rfl
      · exact absurd hbad hcolons

theorem readMember_eq_ok_iff {left e : Expr} {slot : Bool} {c c' : Cursor} :
    readMember left slot c = .ok (e, c') ↔
      ∃ name, memberName? c.skipNewlines.head true = some name ∧ c' = c.skipNewlines.advance ∧
        e = c'.close left.range.start (.member left name slot) := by
  simp only [readMember]
  cases memberName? c.skipNewlines.head true with
  | none => simp
  | some name =>
    constructor
    · intro h
      cases h
      exact ⟨name, rfl, rfl, rfl⟩
    · rintro ⟨name', hname, rfl, rfl⟩
      cases hname
      rfl

namespace Reads

open Cursor

theorem reaches_readName {start : Nat} {first : Lexeme} {c c' : Cursor} {e : Expr}
    (h : readName start first c = .ok (e, c')) : c.Reaches c' := by
  rcases readName_eq_ok_iff.mp h with ⟨-, -, rfl, -⟩ | ⟨-, name, -, rfl, -⟩
  · exact .refl _
  · exact (reaches_advance c).trans ((reaches_settle _).trans (reaches_advance _))

theorem brackets_readName {start : Nat} {first : Lexeme} {c c' : Cursor} {e : Expr}
    (h : readName start first c = .ok (e, c')) : c'.brackets = c.brackets := by
  rcases readName_eq_ok_iff.mp h with ⟨-, -, rfl, -⟩ | ⟨-, name, -, rfl, -⟩
  · rfl
  · simp

theorem reaches_readMember {left e : Expr} {slot : Bool} {c c' : Cursor}
    (h : readMember left slot c = .ok (e, c')) : c.Reaches c' := by
  obtain ⟨name, -, rfl, -⟩ := readMember_eq_ok_iff.mp h
  exact (reaches_skipNewlines c).trans (reaches_advance _)

theorem brackets_readMember {left e : Expr} {slot : Bool} {c c' : Cursor}
    (h : readMember left slot c = .ok (e, c')) : c'.brackets = c.brackets := by
  obtain ⟨name, -, rfl, -⟩ := readMember_eq_ok_iff.mp h
  simp

variable {task : Task} {c c' : Cursor} {result : task.Result}

/-- **Reading moves on.** -/
theorem reaches (h : Reads task c result c') : c.Reaches c' := by
  induction h with
  | expression _ _ hleft hmore => exact hleft.trans hmore
  | done => exact reaches_settle _
  | call _ _ _ _ hgiven hmore =>
    exact (reaches_settle_advance _).trans (.trans hgiven hmore)
  | index _ _ _ _ hgiven hmore =>
    exact (reaches_settle_advance _).trans (.trans hgiven hmore)
  | doubleIndex _ _ _ _ _ hgiven hmore =>
    exact (reaches_settle_advance _).trans
      (.trans hgiven ((reaches_settle_advance _).trans hmore))
  | member _ _ hmember _ hmore =>
    exact (reaches_settle_advance _).trans ((reaches_readMember hmember).trans hmore)
  | between _ _ _ _ hright hmore =>
    exact (reaches_settle_advance _).trans
      ((reaches_skipNewlines _).trans (.trans hright hmore))
  | leaf => exact reaches_settle_advance _
  | name _ hname => exact (reaches_settle_advance _).trans (reaches_readName hname)
  | paren _ _ _ hinner =>
    exact (reaches_settle_advance _).trans (.trans hinner (reaches_settle_advance _))
  | block _ _ hbody =>
    exact (reaches_settle_advance _).trans (.trans hbody (reaches_advance _))
  | sign _ _ hinner | tilde _ _ hinner | repeatLoop _ _ hinner =>
    exact (reaches_settle_advance _).trans ((reaches_skipNewlines _).trans hinner)
  | function _ _ _ _ hgiven hbody =>
    exact (reaches_settle_advance _).trans ((reaches_settle_advance _).trans
      (.trans hgiven ((reaches_skipNewlines _).trans hbody)))
  | conditional _ _ _ _ hcondition hconsequent halternative =>
    exact (reaches_settle_advance _).trans (hcondition.trans (hconsequent.trans halternative))
  | forLoop _ _ hinside _ _ _ _ _ hsequence hbody =>
    subst hinside
    exact (reaches_settle_advance _).trans ((reaches_settle_advance _).trans
      (.trans (reaches_settle_advance (enter _ .round)) ((reaches_settle_advance _).trans
        (.trans hsequence ((reaches_settle_advance _).trans
          ((reaches_skipNewlines (leave _)).trans hbody))))))
  | whileLoop _ _ _ hcondition hbody =>
    exact (reaches_settle_advance _).trans (hcondition.trans hbody)
  | header _ _ _ hcondition =>
    exact (reaches_settle_advance _).trans (.trans hcondition
      ((reaches_settle_advance _).trans (reaches_skipNewlines (leave _))))
  | elseBranch _ _ hbranch =>
    exact (reaches_beforeElse _).trans
      ((reaches_advance _).trans ((reaches_skipNewlines _).trans hbranch))
  | noElse => exact .refl _
  | noStatements => exact reaches_skipSeparators _
  | statement _ _ _ _ hfirst hothers =>
    exact (reaches_skipSeparators _).trans (hfirst.trans hothers)
  | noArguments | noParameters => exact reaches_settle_advance _
  | someArguments _ _ hgiven | someParameters _ _ hgiven =>
    exact (reaches_settle _).trans hgiven
  | lastArgument _ _ hfirst => exact hfirst.trans (reaches_settle_advance _)
  | moreArguments _ _ _ hfirst hothers =>
    exact hfirst.trans ((reaches_settle_advance _).trans hothers)
  | namedArgument _ _ _ hvalue =>
    exact (reaches_settle_advance _).trans ((reaches_settle_advance _).trans hvalue)
  | plainArgument _ _ hvalue | value _ _ hvalue => exact (reaches_settle _).trans hvalue
  | noValue | noFallback => exact reaches_settle _
  | lastParameter _ _ _ hfallback =>
    exact (reaches_settle_advance _).trans (hfallback.trans (reaches_settle_advance _))
  | moreParameters _ _ _ _ hfallback hothers =>
    exact (reaches_settle_advance _).trans
      (hfallback.trans ((reaches_settle_advance _).trans hothers))
  | fallback _ _ hvalue => exact (reaches_settle_advance _).trans hvalue

/-- **Reading leaves the brackets as they were**, but for the one whose end is read. -/
theorem brackets (h : Reads task c result c') :
    c'.brackets = if task.closes then c.brackets.tail else c.brackets := by
  -- What is entered is left where its end is read, by the rule itself or by a premise that closes.
  induction h with
  | member _ _ hmember _ hmore =>
    rw [hmore]
    simp [Task.closes, brackets_readMember hmember]
  | name _ hname => simp [Task.closes, brackets_readName hname]
  | forLoop _ _ hinside _ _ _ _ _ hsequence hbody =>
    subst hinside
    simp_all [Task.closes]
  | _ => simp_all [Task.closes]

/-- **Where something has to come, a lexeme is taken.** -/
theorem length_lt (h : Reads task c result c') (htask : task.takes = true) :
    c'.rest.length < c.rest.length := by
  have hopen {opening : Opening} {c : Cursor} (h : Opening.ofLexeme? c.settle.head = some opening) :
      c.settle.advance.rest.length < c.rest.length :=
    length_settle_advance_lt (Opening.kind_ne_endOfInput h)
  have htaken {kind : Kind} {c : Cursor} (h : c.settle.head.kind = kind)
      (hkind : kind ≠ .endOfInput) : c.settle.advance.rest.length < c.rest.length :=
    length_settle_advance_lt (h ▸ hkind)
  -- The first lexeme is taken, and whatever is read behind it only moves on.
  induction h with
  | expression _ hmore hleft => exact Nat.lt_of_le_of_lt hmore.reaches.length_le (hleft rfl)
  | leaf hopening => exact hopen hopening
  | name hopening hname =>
    exact Nat.lt_of_le_of_lt (reaches_readName hname).length_le (hopen hopening)
  | paren hopening hinner =>
    exact Nat.lt_of_le_of_lt (hinner.reaches.trans (reaches_settle_advance _)).length_le
      (hopen hopening)
  | block hopening hbody =>
    exact Nat.lt_of_le_of_lt (hbody.reaches.trans (reaches_advance _)).length_le (hopen hopening)
  | sign hopening hinner | tilde hopening hinner | repeatLoop hopening hinner =>
    exact Nat.lt_of_le_of_lt ((reaches_skipNewlines _).trans hinner.reaches).length_le
      (hopen hopening)
  | function hopening _ hgiven hbody =>
    exact Nat.lt_of_le_of_lt ((reaches_settle_advance _).trans (.trans hgiven.reaches
      ((reaches_skipNewlines _).trans hbody.reaches))).length_le (hopen hopening)
  | conditional hopening hcondition hconsequent halternative =>
    exact Nat.lt_of_le_of_lt (hcondition.reaches.trans
      (hconsequent.reaches.trans halternative.reaches)).length_le (hopen hopening)
  | forLoop hopening _ hinside _ _ hsequence _ hbody =>
    subst hinside
    exact Nat.lt_of_le_of_lt ((reaches_settle_advance _).trans
      (.trans (reaches_settle_advance (enter _ .round)) ((reaches_settle_advance _).trans
        (.trans hsequence.reaches ((reaches_settle_advance _).trans
          ((reaches_skipNewlines (leave _)).trans hbody.reaches)))))).length_le (hopen hopening)
  | whileLoop hopening hcondition hbody =>
    exact Nat.lt_of_le_of_lt (hcondition.reaches.trans hbody.reaches).length_le (hopen hopening)
  | header hparen hcondition =>
    exact Nat.lt_of_le_of_lt (hcondition.reaches.trans
      ((reaches_settle_advance _).trans (reaches_skipNewlines (leave _)))).length_le
      (htaken hparen (by decide))
  | noArguments hclose => exact htaken hclose (Closer.kind_ne_endOfInput _)
  | noParameters hclose => exact htaken hclose (by decide)
  | someArguments _ _ ihgiven | someParameters _ _ ihgiven =>
    exact Nat.lt_of_lt_of_le (ihgiven rfl) (reaches_settle _).length_le
  | lastArgument hfirst hclose =>
    exact Nat.lt_of_lt_of_le (htaken hclose (Closer.kind_ne_endOfInput _)) hfirst.reaches.length_le
  | moreArguments hfirst hcomma hothers =>
    exact Nat.lt_of_le_of_lt hothers.reaches.length_le
      (Nat.lt_of_lt_of_le (htaken hcomma (by decide)) hfirst.reaches.length_le)
  | lastParameter hname hfallback =>
    exact Nat.lt_of_le_of_lt (hfallback.reaches.trans (reaches_settle_advance _)).length_le
      (htaken hname (by decide))
  | moreParameters hname hfallback _ hothers =>
    exact Nat.lt_of_le_of_lt (hfallback.reaches.trans ((reaches_settle_advance _).trans
      hothers.reaches)).length_le (htaken hname (by decide))
  | _ => cases htask

/-- An argument that begins with a name is not empty. -/
theorem length_lt_of_argumentName? {closer : Closer} {value : Option Expr} {name : String}
    {c c' : Cursor} (h : Reads (.argumentValue closer) c.settle value c')
    (hname : argumentName? c.settle.head = some name) :
    c'.rest.length < c.settle.rest.length := by
  have hkind {kind : Kind} (hkind : c.settle.head.kind = kind) : kind ≠ .comma ∧
      kind ≠ closer.kind := by
    rw [argumentName?, hkind] at hname
    constructor
    · rintro rfl
      cases hname
    · rintro rfl
      cases closer <;> cases hname
  cases h with
  | noValue hend =>
    rw [settle_settle] at hend
    exact absurd hend (not_or.mpr (hkind rfl))
  | value _ hvalue =>
    rw [settle_settle] at hvalue
    exact hvalue.length_lt rfl

/-- Statements stop behind the separators in front of them, if not further on. -/
theorem reaches_statements {terminator : Kind} {es : List Expr}
    (h : Reads (.statements terminator) c es c') : c.skipSeparators.Reaches c' := by
  cases h with
  | noStatements => exact .refl _
  | statement _ hfirst _ hothers => exact hfirst.reaches.trans hothers.reaches

/-- Statements stop at their terminator. -/
theorem head_of_statements {task : Task} {c c' : Cursor} {result : task.Result}
    (h : Reads task c result c') {terminator : Kind} (htask : task = .statements terminator) :
    c'.head.kind = terminator := by
  induction h with
  | noStatements hend =>
    cases htask
    exact hend
  | statement _ _ _ _ _ ihothers => exact ihothers htask
  | _ => cases htask

end Reads
end Expr
end TypeDrift
