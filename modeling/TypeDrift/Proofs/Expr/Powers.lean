import TypeDrift.Proofs.Expr.Complete
import TypeDrift.Proofs.Token.Piece
import TypeDrift.Script.Basic

/-! # Trees respect the binding powers

An operator gives each of its operands a power.  What is read as its last operand is read with that
power and so begins with no operator that binds more loosely; and it goes on for as long as
something binds at least as strongly, so that whatever comes behind it, if it takes the whole as its
left operand, binds more loosely than every operator that ends there.

The two facts are about different cursors: the one about where an expression begins, the other about
what its reader has seen behind it (`Ends`).  The induction along a derivation carries both, and a
tree respects the powers at a node because the reader of the node had them at hand when it made it.
-/
namespace TypeDrift

/-! ## The powers of a node -/

/-- The kind of the lexeme that writes an operator. -/
def BinaryOperator.kind : BinaryOperator → Kind
  | add => .plus
  | subtract => .minus
  | multiply => .star
  | divide => .slash
  | power => .caret
  | range => .colon
  | special text => if text = ":=" then .colonAssign else .special
  | pipe => .pipe
  | equal => .equal
  | notEqual => .notEqual
  | less => .less
  | lessEqual => .lessEqual
  | greater => .greater
  | greaterEqual => .greaterEqual
  | and => .ampersand
  | andAnd => .doubleAmpersand
  | or => .bar
  | orOr => .doubleBar
  | help => .question

/-- The kind of the lexeme that writes an operator. -/
def AssignOperator.kind : AssignOperator → Kind
  | left => .leftAssign
  | superLeft => .superAssign
  | equal => .equalAssign
  | right => .rightAssign
  | superRight => .superRightAssign

/-- The level of an operator before its operand. -/
def UnaryOperator.level : UnaryOperator → Level
  | negate | plus => .unary
  | not => .not
  | help => .help

namespace Form
variable {ε : Type}

/-- The level of the operator, if the form is that of an operator between two operands. -/
def level? : Form ε → Option Level
  | binary operator _ _ => operator.kind.level?
  | assign operator _ _ _ => operator.kind.level?
  | formula (some _) _ => Kind.level? .tilde
  | _ => none

/-- The power that the last operand is read with, if the form is that of an operator, of a function,
of a branch or of a loop. -/
def power? : Form ε → Option Nat
  | unary operator _ => some operator.level.binding
  | formula none _ => some Level.tilde.rightPower
  | function .. | conditional .. | forLoop .. | whileLoop .. | repeatLoop _ =>
    some Level.bodyPower
  | form => form.level?.map Level.rightPower

/-- The operand on the left of an operator. -/
def leftOperand? : Form ε → Option ε
  | binary _ left _ | assign _ _ left _ | formula (some left) _ => some left
  | _ => none

/-- The operand that an operator, a function, a branch or a loop ends with. -/
def lastOperand? : Form ε → Option ε
  | unary _ last | binary _ _ last | assign _ _ _ last | formula _ last | function _ last
  | conditional _ _ (some last) | conditional _ last none | forLoop _ _ last | whileLoop _ last
  | repeatLoop last => some last
  | _ => none

/-- What a call calls, or what an index or a member is taken of. -/
def target? : Form ε → Option ε
  | call target _ | index target _ _ | member target _ _ => some target
  | _ => none

example : (power? (unary .negate ()), power? (unary .not ()), power? (unary .help ())) =
    (some 28, some 16, some 2) := rfl

example : (power? (formula none ()), power? (repeatLoop ())) = (some 11, some 4) := rfl

theorem level?_of_power?_eq_none {form : Form ε} (h : form.power? = none) : form.level? = none := by
  unfold power? at h
  split at h
  all_goals first | cases h | exact Option.map_eq_none_iff.mp h

theorem leftOperand?_of_level?_eq_none {form : Form ε} (h : form.level? = none) :
    form.leftOperand? = none := by
  cases form with
  | binary operator _ _ =>
    cases operator with
    | special text =>
      simp only [level?, BinaryOperator.kind] at h
      split at h <;> cases h
    | _ => cases h
  | assign operator _ _ _ => cases operator <;> cases h
  | formula left _ => cases left with
    | none => rfl
    | some _ => cases h
  | _ => rfl

theorem lastOperand?_of_power?_eq_none {form : Form ε} (h : form.power? = none) :
    form.lastOperand? = none := by
  have hleft := leftOperand?_of_level?_eq_none (level?_of_power?_eq_none h)
  cases form with
  | formula left _ => cases left with
    | none => cases h
    | some _ => cases hleft
  | conditional _ _ alternative => cases h
  | binary _ _ _ | assign _ _ _ _ => cases hleft
  | unary _ _ | function _ _ | forLoop _ _ _ | whileLoop _ _ | repeatLoop _ => cases h
  | _ => rfl

/-- An operator binds more loosely than a call, an index or a member. -/
theorem power?_lt_member {form : Form ε} {power : Nat} (h : form.power? = some power) :
    power < Level.member.binding := by
  have hlevel {kind : Kind} {power : Nat} (h : kind.level?.map Level.rightPower = some power) :
      power < Level.member.binding := by
    cases kind <;> cases h <;> decide
  unfold power? at h
  split at h
  · next operator _ =>
    cases h
    cases operator <;> decide
  · cases h; decide
  all_goals try (cases h; decide)
  · next form _ _ _ _ _ _ _ =>
    unfold level? at h
    split at h
    · exact hlevel h
    · exact hlevel h
    · exact hlevel h
    · cases h

end Form

namespace Expr

/-- `FromLeft e x`: the second expression is the first, or is reached from it along left operands of
operators. -/
inductive FromLeft : Expr → Expr → Prop where
  | refl (e : Expr) : FromLeft e e
  | left {e left x : Expr} (hleft : e.form.leftOperand? = some left) (hx : FromLeft left x) :
      FromLeft e x

/-- `FromLast e x`: the second expression is the first, or is reached from it along last operands. -/
inductive FromLast : Expr → Expr → Prop where
  | refl (e : Expr) : FromLast e e
  | last {e last x : Expr} (hlast : e.form.lastOperand? = some last) (hx : FromLast last x) :
      FromLast e x

/-- No operator at the beginning of an expression binds more loosely than this power. -/
def Starts (power : Nat) (e : Expr) : Prop :=
  ∀ x level, FromLeft e x → x.form.level? = some level → power ≤ level.leftPower

/-- **A node respects the powers.**  What its last operand begins with binds at least as strongly as
the node does; what its left operand ends with binds more strongly than the node does; and nothing
that ends with an operand is called, indexed or taken a member of. -/
structure RespectsPowers (e : Expr) : Prop where
  last : ∀ power last, e.form.power? = some power → e.form.lastOperand? = some last →
    Starts power last
  left : ∀ level left, e.form.level? = some level → e.form.leftOperand? = some left →
    ∀ x power, FromLast left x → x.form.power? = some power → level.leftPower < power
  target : ∀ target, e.form.target? = some target → target.form.power? = none

/-! ## What a reader knows -/

/-- What comes next binds more loosely than this power, if it goes on at all. -/
def Loose (power : Nat) (c : Cursor) : Prop :=
  ∀ step, Continuation.ofKind? c.settle.head.kind = some step → step.leftPower < power

/-- What comes next binds more loosely than everything that an expression ends with. -/
def Ends (e : Expr) (c : Cursor) : Prop :=
  ∀ x power, FromLast e x → x.form.power? = some power → Loose power c

theorem loose_settle {power : Nat} {c : Cursor} : Loose power c.settle ↔ Loose power c := by
  rw [Loose, Cursor.settle_settle]
  rfl

theorem Ends.settle {e : Expr} {c : Cursor} (h : Ends e c) : Ends e c.settle :=
  fun x power hx hpower => loose_settle.mpr (h x power hx hpower)

theorem starts_of_level?_eq_none {e : Expr} {power : Nat} (h : e.form.level? = none) :
    Starts power e := by
  intro x level hx hlevel
  cases hx with
  | refl => rw [h] at hlevel; cases hlevel
  | left hleft _ => rw [Form.leftOperand?_of_level?_eq_none h] at hleft; cases hleft

theorem ends_of_power?_eq_none {e : Expr} {c : Cursor} (h : e.form.power? = none) : Ends e c := by
  intro x power hx hpower
  cases hx with
  | refl => rw [h] at hpower; cases hpower
  | last hlast _ => rw [Form.lastOperand?_of_power?_eq_none h] at hlast; cases hlast

theorem starts_of_left {e left : Expr} {power : Nat} {level : Level}
    (hlevel : e.form.level? = some level) (hleft : e.form.leftOperand? = some left)
    (hpower : power ≤ level.leftPower) (h : Starts power left) : Starts power e := by
  intro x level' hx hlevel'
  cases hx with
  | refl =>
    cases hlevel.symm.trans hlevel'
    exact hpower
  | left hleft' hx =>
    cases hleft.symm.trans hleft'
    exact h x level' hx hlevel'

theorem ends_of_last {e last : Expr} {power : Nat} {c : Cursor} (hpower : e.form.power? = some power)
    (hlast : e.form.lastOperand? = some last) (hloose : Loose power c) (h : Ends last c) :
    Ends e c := by
  intro x power' hx hpower'
  cases hx with
  | refl =>
    cases hpower.symm.trans hpower'
    exact hloose
  | last hlast' hx =>
    cases hlast.symm.trans hlast'
    exact h x power' hx hpower'

/-- Everything in an expression respects the powers. -/
def Respects (e : Expr) : Prop := ∀ x ∈ e.preorder, x.RespectsPowers

theorem respects_iff {e : Expr} :
    Respects e ↔ e.RespectsPowers ∧ ∀ child ∈ e.children, Respects child :=
  forall_mem_preorder_iff

/-- Nothing is asked of a node that neither ends with an operand nor goes on with one. -/
theorem respectsPowers_of_plain {e : Expr} (hpower : e.form.power? = none)
    (htarget : ∀ target, e.form.target? = some target → target.form.power? = none) :
    e.RespectsPowers := by
  refine ⟨fun power _ h => ?_, fun level _ h => ?_, htarget⟩
  · rw [hpower] at h
    cases h
  · rw [Form.level?_of_power?_eq_none hpower] at h
    cases h

/-- Of a node that ends with an operand and has none on its left, it is asked how that one begins. -/
theorem respectsPowers_of_last {e last : Expr} {power : Nat} (hlevel : e.form.level? = none)
    (hpower : e.form.power? = some power) (hlast : e.form.lastOperand? = some last)
    (htarget : e.form.target? = none) (h : Starts power last) : e.RespectsPowers := by
  refine ⟨fun power' last' hpower' hlast' => ?_, fun level _ hlevel' => ?_, fun target h => ?_⟩
  · cases hpower.symm.trans hpower'
    cases hlast.symm.trans hlast'
    exact h
  · rw [hlevel] at hlevel'
    cases hlevel'
  · rw [htarget] at h
    cases h

end Expr

/-! ## Lexemes and the nodes made of them -/

/-- The text of an operator tells those between percent signs from `:=`. -/
def Lexeme.Legible (lexeme : Lexeme) : Prop :=
  (lexeme.kind = .special → lexeme.text ≠ ":=") ∧ (lexeme.kind = .colonAssign → lexeme.text = ":=")

/-- All lexemes to come are legible. -/
def Cursor.Legible (c : Cursor) : Prop := ∀ lexeme ∈ c.rest, lexeme.Legible

theorem Cursor.Legible.of_reaches {c d : Cursor} (h : c.Legible) (hd : c.Reaches d) : d.Legible :=
  fun lexeme hmem => h lexeme (hd.mem hmem)

theorem Cursor.Legible.head {c : Cursor} (h : c.Legible) (hkind : c.head.kind ≠ .endOfInput) :
    c.head.Legible :=
  h c.head (rest_eq_cons hkind ▸ List.mem_cons_self)

/-- The node that an operator makes is on the level that its lexeme is read on. -/
theorem Form.level?_between {ε : Type} {operator : Lexeme} {level : Level} (place : Nat)
    (left right : ε) (hlegible : operator.Legible)
    (h : Continuation.ofKind? operator.kind = some (.between level)) :
    (Form.between operator place left right).level? = some level := by
  obtain ⟨kind, text⟩ := operator
  cases kind with
  | special =>
    have htext : text ≠ ":=" := hlegible.1 rfl
    have hnode : Form.between ⟨.special, text⟩ place left right =
        .binary (.special text) left right := rfl
    cases h
    rw [hnode, level?, BinaryOperator.kind, if_neg htext]
    rfl
  | colonAssign =>
    obtain rfl : text = ":=" := hlegible.2 rfl
    cases h
    rfl
  | _ => cases h <;> rfl

theorem Form.operands_between {ε : Type} (operator : Lexeme) (place : Nat) (left right : ε) :
    (Form.between operator place left right).leftOperand? = some left ∧
      (Form.between operator place left right).lastOperand? = some right ∧
      (Form.between operator place left right).target? = none := by
  unfold between
  split
  · exact ⟨rfl, rfl, rfl⟩
  · split <;> exact ⟨rfl, rfl, rfl⟩

theorem Form.power?_of_level? {ε : Type} {form : Form ε} {level : Level}
    (h : form.level? = some level) : form.power? = some level.rightPower := by
  unfold power?
  split
  all_goals first | cases h | rw [h]; rfl

/-- A form without operands and parts. -/
def Form.Plain (form : Form Expr) : Prop :=
  form.power? = none ∧ form.target? = none ∧ form.children = []

theorem Opening.plain_leaf {lexeme : Lexeme} {form : Form Expr}
    (h : ofLexeme? lexeme = some (.leaf form)) : form.Plain := by
  obtain ⟨kind, text⟩ := lexeme
  cases kind with
  | keyword word => cases word <;> cases h <;> exact ⟨rfl, rfl, rfl⟩
  | _ => first | (cases h; exact ⟨rfl, rfl, rfl⟩) | cases h

theorem Opening.level_sign {lexeme : Lexeme} {operator : UnaryOperator} {level : Level}
    (h : ofLexeme? lexeme = some (.sign operator level)) : level = operator.level := by
  obtain ⟨kind, text⟩ := lexeme
  cases kind with
  | keyword word => cases word <;> cases h
  | _ => first | (cases h; rfl) | cases h

namespace Expr

open Cursor

theorem plain_readName {start : Nat} {first : Lexeme} {c c' : Cursor} {e : Expr}
    (h : readName start first c = .ok (e, c')) : e.form.Plain := by
  rcases readName_eq_ok_iff.mp h with ⟨-, -, -, rfl⟩ | ⟨-, name, -, -, rfl⟩
  · exact ⟨rfl, rfl, rfl⟩
  · exact ⟨rfl, rfl, rfl⟩

theorem form_readMember {left e : Expr} {slot : Bool} {c c' : Cursor}
    (h : readMember left slot c = .ok (e, c')) : ∃ name, e.form = .member left name slot := by
  obtain ⟨name, -, -, rfl⟩ := readMember_eq_ok_iff.mp h
  exact ⟨name, rfl⟩

theorem respects_of_plain {e : Expr} (h : e.form.Plain) : Respects e := by
  obtain ⟨hpower, htarget, hchildren⟩ := h
  refine respects_iff.mpr ⟨respectsPowers_of_plain hpower fun target h => ?_, fun child h => ?_⟩
  · rw [htarget] at h
    cases h
  · rw [children, hchildren] at h
    cases h

/-- An expression read with a power, and what its reader has seen behind it. -/
structure ReadWith (power : Nat) (e : Expr) (c : Cursor) : Prop where
  respects : Respects e
  starts : Starts power e
  ends : Ends e c
  loose : Loose power c

/-- What the reader of a task makes sure of. -/
def Task.Keeps : (task : Task) → task.Result → Cursor → Cursor → Prop
  | expression power, e, _, c' => ReadWith power e c'
  | continuation power left, e, c, c' =>
    Respects left ∧ Starts power left ∧ Ends left c → ReadWith power e c'
  | operand, e, _, c' => Respects e ∧ e.form.level? = none ∧ Ends e c'
  | header, e, _, _ => Respects e
  | alternative, branch, c, c' =>
    (branch = none → c' = c) ∧ ∀ e, branch = some e → ReadWith Level.bodyPower e c'
  | statements _, (es : List Expr), _, _ => ∀ e ∈ es, Respects e
  | arguments _, given, _, _ | argumentsFrom _, given, _, _ =>
    ∀ e ∈ given.filterMap Argument.value, Respects e
  | argument _, given, _, _ => ∀ e, given.value = some e → Respects e
  | argumentValue _, value, _, _ | fallback, value, _, _ => ∀ e, value = some e → Respects e
  | parameters, given, _, _ | parametersFrom, given, _, _ =>
    ∀ e ∈ given.filterMap Parameter.fallback, Respects e

/-- A node that ends with an operand and has none on its left, made where its reader stopped. -/
theorem keeps_of_last {e last : Expr} {power : Nat} {c : Cursor} (hlevel : e.form.level? = none)
    (hpower : e.form.power? = some power) (hlast : e.form.lastOperand? = some last)
    (htarget : e.form.target? = none) (h : ReadWith power last c)
    (hchildren : ∀ child ∈ e.children, Respects child) :
    Respects e ∧ e.form.level? = none ∧ Ends e c :=
  ⟨respects_iff.mpr ⟨respectsPowers_of_last hlevel hpower hlast htarget h.starts, hchildren⟩,
    hlevel, ends_of_last hpower hlast h.loose h.ends⟩

/-- A node that a call, an index or a member is. -/
theorem keeps_of_target {e left : Expr} {power : Nat} {step : Continuation} {c c₁ : Cursor}
    (hpower : e.form.power? = none) (htarget : e.form.target? = some left)
    (hkind : Continuation.ofKind? c.settle.head.kind = some step)
    (hstep : Level.member.binding ≤ step.leftPower) (hends : Ends left c)
    (hchildren : ∀ child ∈ e.children, Respects child) :
    Respects e ∧ Starts power e ∧ Ends e c₁ := by
  refine ⟨respects_iff.mpr ⟨respectsPowers_of_plain hpower fun target h => ?_, hchildren⟩,
    starts_of_level?_eq_none (Form.level?_of_power?_eq_none hpower), ends_of_power?_eq_none hpower⟩
  cases htarget.symm.trans h
  -- An operator would have taken what goes on here for its last operand.
  cases hleft : left.form.power? with
  | none => rfl
  | some power =>
    have hloose := hends left power (.refl left) hleft step hkind
    have hlt := Form.power?_lt_member hleft
    omega

/-- A node that an operator makes of its operands. -/
theorem keeps_of_operands {e left right : Expr} {power : Nat} {level : Level} {c c₁ : Cursor}
    (hlevel : e.form.level? = some level) (hleft : e.form.leftOperand? = some left)
    (hlast : e.form.lastOperand? = some right) (htarget : e.form.target? = none)
    (hchildren : e.children = [left, right])
    (hkind : Continuation.ofKind? c.settle.head.kind = some (.between level))
    (hpower : power ≤ level.leftPower) (h : Respects left ∧ Starts power left ∧ Ends left c)
    (hright : ReadWith level.rightPower right c₁) :
    Respects e ∧ Starts power e ∧ Ends e c₁ := by
  obtain ⟨hrespects, hstarts, hends⟩ := h
  have hpower? := Form.power?_of_level? hlevel
  refine ⟨respects_iff.mpr ⟨⟨?_, ?_, ?_⟩, ?_⟩, starts_of_left hlevel hleft hpower hstarts,
    ends_of_last hpower? hlast hright.loose hright.ends⟩
  · intro power' last hpower' hlast'
    cases hpower?.symm.trans hpower'
    cases hlast.symm.trans hlast'
    exact hright.starts
  · -- What the left operand ends with would have gone on, had the operator been tight enough.
    intro level' left' hlevel' hleft' x power' hx hpower'
    cases hlevel.symm.trans hlevel'
    cases hleft.symm.trans hleft'
    exact hends x power' hx hpower' _ hkind
  · intro target htarget'
    rw [htarget] at htarget'
    cases htarget'
  · rw [hchildren]
    exact List.forall_mem_cons.mpr ⟨hrespects, List.forall_mem_singleton.mpr hright.respects⟩

/-- **What readers make sure of** holds along every derivation. -/
theorem Reads.keeps {task : Task} {c c' : Cursor} {result : task.Result}
    (h : Reads task c result c') (hc : c.Legible) : task.Keeps result c c' := by
  induction h with
  | expression hleft _ ihleft ihmore =>
    obtain ⟨hrespects, hlevel, hends⟩ := ihleft hc
    exact ihmore (hc.of_reaches hleft.reaches)
      ⟨hrespects, starts_of_level?_eq_none hlevel, hends⟩
  | done hloose =>
    rintro ⟨hrespects, hstarts, hends⟩
    exact ⟨hrespects, hstarts, hends.settle, loose_settle.mpr hloose⟩
  | call hkind _ hgiven _ ihgiven ihmore | index hkind _ hgiven _ ihgiven ihmore =>
    rintro ⟨hrespects, hstarts, hends⟩
    have hc₁ := hc.of_reaches (reaches_settle_advance _)
    exact ihmore (hc₁.of_reaches hgiven.reaches) (keeps_of_target rfl rfl hkind (by decide) hends
      (List.forall_mem_cons.mpr ⟨hrespects, ihgiven hc₁⟩))
  | doubleIndex hkind _ hgiven _ _ ihgiven ihmore =>
    rintro ⟨hrespects, hstarts, hends⟩
    have hc₁ := hc.of_reaches (reaches_settle_advance _)
    exact ihmore (hc₁.of_reaches (.trans hgiven.reaches (reaches_settle_advance _)))
      (keeps_of_target rfl rfl hkind (by decide) hends
        (List.forall_mem_cons.mpr ⟨hrespects, ihgiven hc₁⟩))
  | member hkind _ hmember _ ihmore =>
    rintro ⟨hrespects, hstarts, hends⟩
    obtain ⟨name, hform⟩ := form_readMember hmember
    have hc₁ := hc.of_reaches
      ((reaches_settle_advance _).trans (Reads.reaches_readMember hmember))
    refine ihmore hc₁ (keeps_of_target (by rw [hform]; rfl) (by rw [hform]; rfl) hkind
      (Nat.le_refl _) hends ?_)
    rw [children, hform]
    exact List.forall_mem_singleton.mpr hrespects
  | @between power level left right _ c c₁ _ hkind hpower hright _ ihright ihmore =>
    intro hleft
    have hlegible :=
      (hc.of_reaches (reaches_settle c)).head (Continuation.kind_ne_endOfInput hkind)
    have hc₁ := hc.of_reaches ((reaches_settle_advance c).trans (reaches_skipNewlines _))
    obtain ⟨hfirst, hlast, htarget⟩ :=
      Form.operands_between c.settle.head c.settle.index left right
    exact ihmore (hc₁.of_reaches hright.reaches)
      (keeps_of_operands (Form.level?_between _ left right hlegible hkind) hfirst hlast htarget
        (Form.children_between _ _ _ _) hkind hpower hleft (ihright hc₁))
  | leaf hopening =>
    have hplain := Opening.plain_leaf hopening
    exact ⟨respects_of_plain hplain, Form.level?_of_power?_eq_none hplain.1,
      ends_of_power?_eq_none hplain.1⟩
  | name _ hname =>
    have hplain := plain_readName hname
    exact ⟨respects_of_plain hplain, Form.level?_of_power?_eq_none hplain.1,
      ends_of_power?_eq_none hplain.1⟩
  | paren hopening _ _ ihinner =>
    have hinner := ihinner (hc.of_reaches (reaches_settle_advance _))
    exact ⟨respects_iff.mpr ⟨respectsPowers_of_plain rfl (fun _ h => by cases h),
      List.forall_mem_singleton.mpr hinner.respects⟩, rfl, ends_of_power?_eq_none rfl⟩
  | block hopening _ ihbody =>
    exact ⟨respects_iff.mpr ⟨respectsPowers_of_plain rfl (fun _ h => by cases h),
      ihbody (hc.of_reaches (reaches_settle_advance _))⟩, rfl, ends_of_power?_eq_none rfl⟩
  | sign hopening _ ihinner =>
    have hinner := ihinner
      (hc.of_reaches ((reaches_settle_advance _).trans (reaches_skipNewlines _)))
    rw [Opening.level_sign hopening] at hinner
    exact keeps_of_last rfl rfl rfl rfl hinner (List.forall_mem_singleton.mpr hinner.respects)
  | tilde _ _ ihright | repeatLoop _ _ ihright =>
    have hright := ihright
      (hc.of_reaches ((reaches_settle_advance _).trans (reaches_skipNewlines _)))
    exact keeps_of_last rfl rfl rfl rfl hright (List.forall_mem_singleton.mpr hright.respects)
  | function _ _ hgiven _ ihgiven ihbody =>
    have hc₁ := hc.of_reaches ((reaches_settle_advance _).trans (reaches_settle_advance _))
    have hbody := ihbody (hc₁.of_reaches (.trans hgiven.reaches (reaches_skipNewlines _)))
    exact keeps_of_last rfl rfl rfl rfl hbody (List.forall_mem_append.mpr
      ⟨ihgiven hc₁, List.forall_mem_singleton.mpr hbody.respects⟩)
  | @conditional condition consequent other c _ _ _ _ hcondition hconsequent _ ihcondition
      ihconsequent ihother =>
    have hc₁ := hc.of_reaches (reaches_settle_advance c)
    have hc₂ := hc₁.of_reaches hcondition.reaches
    have hcondition := ihcondition hc₁
    have hconsequent' := ihconsequent hc₂
    obtain ⟨hnone, hsome⟩ := ihother (hc₂.of_reaches hconsequent.reaches)
    -- Without an `else` the branch before it comes last, and its reader has stopped where all do.
    cases other with
    | none =>
      cases hnone rfl
      exact keeps_of_last rfl rfl rfl rfl hconsequent' (List.forall_mem_cons.mpr
        ⟨hcondition, List.forall_mem_singleton.mpr hconsequent'.respects⟩)
    | some branch =>
      have hbranch := hsome branch rfl
      exact keeps_of_last rfl rfl rfl rfl hbranch (List.forall_mem_cons.mpr
        ⟨hcondition, List.forall_mem_cons.mpr
          ⟨hconsequent'.respects, List.forall_mem_singleton.mpr hbranch.respects⟩⟩)
  | forLoop _ _ hinside _ _ hsequence _ _ ihsequence ihbody =>
    subst hinside
    have hc₁ := hc.of_reaches ((reaches_settle_advance _).trans ((reaches_settle_advance _).trans
      (.trans (reaches_settle_advance (enter _ .round)) (reaches_settle_advance _))))
    have hbody := ihbody (hc₁.of_reaches (.trans hsequence.reaches
      (.trans (reaches_settle_advance _) (reaches_skipNewlines (leave _)))))
    exact keeps_of_last rfl rfl rfl rfl hbody (List.forall_mem_cons.mpr
      ⟨(ihsequence hc₁).respects, List.forall_mem_singleton.mpr hbody.respects⟩)
  | whileLoop _ hcondition _ ihcondition ihbody =>
    have hc₁ := hc.of_reaches (reaches_settle_advance _)
    have hbody := ihbody (hc₁.of_reaches hcondition.reaches)
    exact keeps_of_last rfl rfl rfl rfl hbody (List.forall_mem_cons.mpr
      ⟨ihcondition hc₁, List.forall_mem_singleton.mpr hbody.respects⟩)
  | header _ _ _ ihcondition =>
    exact (ihcondition (hc.of_reaches (reaches_settle_advance _))).respects
  | elseBranch _ _ ihbranch =>
    refine ⟨(fun h => by cases h), fun e he => ?_⟩
    cases he
    exact ihbranch (hc.of_reaches ((reaches_beforeElse _).trans
      ((reaches_advance _).trans (reaches_skipNewlines _))))
  | noElse => exact ⟨fun _ => rfl, fun _ h => by cases h⟩
  | noStatements | noArguments | noParameters | noValue | noFallback =>
    intro _ h
    cases h
  | statement _ hfirst _ _ ihfirst ihothers =>
    have hc₁ := hc.of_reaches (reaches_skipSeparators _)
    exact List.forall_mem_cons.mpr
      ⟨(ihfirst hc₁).respects, ihothers (hc₁.of_reaches hfirst.reaches)⟩
  | someArguments _ _ ih | someParameters _ _ ih => exact ih (hc.of_reaches (reaches_settle _))
  | lastArgument _ _ ihfirst =>
    exact List.forall_mem_filterMap.mpr (List.forall_mem_singleton.mpr (ihfirst hc))
  | moreArguments hfirst _ _ ihfirst ihothers =>
    have hothers := ihothers
      (hc.of_reaches (hfirst.reaches.trans (reaches_settle_advance _)))
    exact List.forall_mem_filterMap.mpr
      (List.forall_mem_cons.mpr ⟨ihfirst hc, List.forall_mem_filterMap.mp hothers⟩)
  | namedArgument _ _ _ ihvalue =>
    exact ihvalue (hc.of_reaches ((reaches_settle_advance _).trans (reaches_settle_advance _)))
  | plainArgument _ _ ihvalue => exact ihvalue (hc.of_reaches (reaches_settle _))
  | value _ _ ihvalue =>
    intro e he
    cases he
    exact (ihvalue (hc.of_reaches (reaches_settle _))).respects
  | fallback _ _ ihvalue =>
    intro e he
    cases he
    exact (ihvalue (hc.of_reaches (reaches_settle_advance _))).respects
  | lastParameter _ _ _ ihfallback =>
    exact List.forall_mem_filterMap.mpr (List.forall_mem_singleton.mpr
      (ihfallback (hc.of_reaches (reaches_settle_advance _))))
  | moreParameters _ hfallback _ _ ihfallback ihothers =>
    have hc₁ := hc.of_reaches (reaches_settle_advance _)
    have hothers := ihothers
      (hc₁.of_reaches (hfallback.reaches.trans (reaches_settle_advance _)))
    exact List.forall_mem_filterMap.mpr
      (List.forall_mem_cons.mpr ⟨ihfallback hc₁, List.forall_mem_filterMap.mp hothers⟩)

end Expr

/-! ## Texts -/

theorem Piece.Fits.legible {kind : Kind} {text : List Char} (h : Piece.Fits kind text) :
    (Lexeme.mk kind (String.ofList text)).Legible := by
  obtain ⟨_, hspecial, hcolon⟩ := h
  refine ⟨fun hkind htext => ?_, fun hkind => ?_⟩
  · have hhead := hspecial hkind
    rw [← String.toList_ofList (l := text), show String.ofList text = ":=" from htext] at hhead
    cases hhead
  · have htext := hcolon hkind
    exact congrArg String.ofList htext

/-- All tokens of a text are legible. -/
theorem Token.legible_of_scan {source : String} {tokens : List Token}
    (h : scan source = .ok tokens) : ∀ token ∈ tokens, token.toLexeme.Legible := by
  refine scanFrom_induction
    (motive := fun _ _ tokens => ∀ token ∈ tokens, token.toLexeme.Legible) ?_ ?_ h
  · intro place
    exact List.forall_mem_singleton.mpr ⟨nofun, nofun⟩
  · intro place c rest piece tokens hpiece _ htokens
    refine List.forall_mem_append.mpr ⟨fun token hmem => ?_, htokens⟩
    cases Piece.read_shape hpiece with
    | blank _ | comment _ _ => cases hmem
    | newline _ _ =>
      obtain rfl := List.mem_singleton.mp hmem
      exact ⟨nofun, nofun⟩
    | token hsolid =>
      rw [ofPiece_token place hsolid.fits.1.1] at hmem
      obtain rfl := List.mem_singleton.mp hmem
      exact hsolid.fits.legible

/-- **Every tree respects the binding powers**, at every node. -/
theorem Script.read_respects_powers {source : String} {script : Script}
    (h : read source = .ok script) : ∀ e ∈ script.nodes, e.RespectsPowers := by
  unfold read at h
  split at h
  · next tokens htokens =>
    unfold ofTokens at h
    split at h
    · next expressions hexpressions =>
      cases h
      obtain ⟨c, hreads⟩ := Expr.readAll_eq_ok_iff.mp hexpressions
      have hlegible : (Cursor.ofLexemes (tokens.map Token.toLexeme)).Legible :=
        List.forall_mem_map.mpr (Token.legible_of_scan htokens)
      exact List.forall_mem_flatMap.mpr (hreads.keeps hlegible)
    · cases h
  · cases h

/-- Operators of seven levels, three of them before their operand, and two bodies. -/
theorem Script.read_respects_powers_mixed :
    ∃ script, read "f <- function(x) -x^2 %in% y := !a == b ~ if (p) q else ? r$s" = .ok script ∧
      ∀ e ∈ script.nodes, e.RespectsPowers := by
  obtain ⟨script, hread⟩ := exists_read_of_isOk
    (show (read "f <- function(x) -x^2 %in% y := !a == b ~ if (p) q else ? r$s").isOk = true by
      decide +kernel)
  exact ⟨script, hread, read_respects_powers hread⟩

end TypeDrift
