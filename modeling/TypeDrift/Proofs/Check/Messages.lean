import TypeDrift.Proofs.Check.Tags
import TypeDrift.Proofs.Script.Faults
import TypeDrift.Proofs.Script.LineEndings

/-! # Messages on one line

Nothing in a message is quoted or escaped, so that a line break in it would be one in whatever it is
printed in.  But no message has any (`Checker.oneLine_message`).  Of a script, a message takes in what
stands in a fault, the tags of types, and the names of known functions.  A fault shows a character only if
no piece of a text begins with it, which is not so of line breaks; and a token only if no line breaks can
stand in it.  A tag is that of a built-in type or has been accepted by a registry, and both are on one
line.
-/
namespace TypeDrift

open Text

/-! ## Texts on one line -/

namespace Text

/-- A text without line breaks. -/
def OneLine (text : String) : Prop := ∀ c ∈ text.toList, isBreak c = false

instance (text : String) : Decidable (OneLine text) :=
  List.decidableBAll (fun c => isBreak c = false) text.toList

theorem OneLine.append {a b : String} (ha : OneLine a) (hb : OneLine b) : OneLine (a ++ b) := by
  rw [OneLine, String.toList_append]
  exact List.forall_mem_append.mpr ⟨ha, hb⟩

/-- What is no character of a line break is none of a text either. -/
theorem OneLine.notMem {text : String} (h : OneLine text) {c : Char} (hc : isBreak c = true) :
    c ∉ text.toList := fun hmem => by
  rw [h c hmem] at hc
  cases hc

theorem isDigit_of_mem_toString {number : Nat} {c : Char} (h : c ∈ (toString number).toList) :
    c.isDigit = true := by
  rw [Nat.toString_eq_repr, Nat.toList_repr] at h
  exact Nat.isDigit_of_mem_toDigits (by decide) (by decide) h

theorem isBreak_eq_false {p : Char → Bool} {c : Char} (h : p c = true)
    (hp : !p '\n' && !p '\r') : isBreak c = false := by
  cases hbreak : isBreak c with
  | false => rfl
  | true =>
    have hcases : c = '\n' ∨ c = '\r' := by simpa [isBreak] using hbreak
    rcases hcases with rfl | rfl <;> simp_all

theorem oneLine_toString (number : Nat) : OneLine (toString number) := fun _ hmem =>
  isBreak_eq_false (isDigit_of_mem_toString hmem) (by decide)

end Text

/-! ## Messages -/

theorem BaseType.oneLine_tag {registry : Registry} (hbuilt : registry.Built) {base : BaseType}
    (h : registry.resolve? base.tag = some base) : OneLine base.tag := by
  rcases Registry.mem_builtins_or_of_resolve? h with hbuiltin | ⟨-, hregistered⟩
  · have hall : ∀ builtin ∈ builtins, OneLine builtin.tag := by decide +kernel
    exact hall base hbuiltin
  · have hvalid := hbuilt.isValidTag_eq_true hregistered
    unfold Registry.isValidTag at hvalid
    split at hvalid
    · next first rest htag =>
      rw [Bool.and_eq_true, List.all_eq_true] at hvalid
      rw [OneLine, htag]
      rintro c (_ | ⟨_, hrest⟩)
      · exact isBreak_eq_false hvalid.1 (by decide)
      · exact isBreak_eq_false (hvalid.2 c hrest) (by decide)
    · cases hvalid

/-- All that is bound in a check is told by its tags. -/
theorem Checker.resolved_of_mem_history {checker : Checker} (hbuilt : checker.registry.Built)
    {script : Script} {step : Step} (h : step ∈ checker.history script) :
    step.current.Resolved checker.registry ∧
      ∀ previous ∈ step.previous, previous.Resolved checker.registry := by
  have hempty : Bindings.empty.Related
      (fun descriptor descriptor' => descriptor = descriptor' ∧
        descriptor.Resolved checker.registry) .empty := .nil
  have hhistory := (resolvedSimulation hbuilt).history hempty script.assignments
  have hrelated := List.forall₂_same.mp hhistory step h
  refine ⟨hrelated.current.2, fun previous hprevious => ?_⟩
  have hrel := hrelated.previous
  rw [Option.mem_def.mp hprevious] at hrel
  cases hrel with
  | some hrel => exact hrel.2

theorem Finding.oneLine_of_ofStep? {checker : Checker} (hbuilt : checker.registry.Built)
    {script : Script} {step : Step} (hstep : step ∈ checker.history script) {finding : Finding}
    (h : ofStep? step = some finding) : OneLine finding.message := by
  obtain ⟨previous, hprevious, -, rfl⟩ := exists_drift_of_ofStep? h
  obtain ⟨hcurrent, hbefore⟩ := checker.resolved_of_mem_history hbuilt hstep
  have hwas : OneLine "variable reassigned with different type: was " := by decide
  have hnow : OneLine ", now " := by decide
  exact ((hwas.append (BaseType.oneLine_tag hbuilt (hbefore previous hprevious).base)).append
    hnow).append (BaseType.oneLine_tag hbuilt hcurrent.base)

theorem Finding.oneLine_of_ofCall? {site : CallSite} {finding : Finding}
    (h : ofCall? site = some finding) : OneLine finding.message := by
  have hall : ∀ signature ∈ Signature.all, OneLine signature.name ∧
      ∀ base ∈ signature.expects, OneLine base.tag := by decide +kernel
  obtain ⟨expected, hexpected, rfl⟩ := Option.map_eq_some_iff.mp h
  obtain ⟨signature, hfound, hexpects⟩ := Option.bind_eq_some_iff.mp hexpected
  obtain ⟨hname, hbases⟩ := hall signature (List.mem_of_find?_eq_some hfound)
  have hcallee : signature.name = site.callee := by simpa using List.find?_some hfound
  have hexpectsText : OneLine "() expects " := by decide
  have hinput : OneLine " input" := by decide
  exact (((hcallee ▸ hname).append hexpectsText).append (hbases expected hexpects)).append hinput

/-- A token is shown only if it is on one line. -/
theorem Lexeme.oneLine_described {lexeme : Lexeme}
    (h : Piece.Multiline lexeme.kind ∨ lexeme.kind = .newline ∨ OneLine lexeme.text) :
    OneLine lexeme.described := by
  obtain ⟨kind, text⟩ := lexeme
  have hshown (htext : OneLine text) : OneLine ("'" ++ text ++ "'") :=
    ((by decide : OneLine "'").append htext).append (by decide)
  rcases h with (rfl | ⟨contents, rfl⟩) | rfl | htext
  · exact (by decide : OneLine "symbol")
  · exact (by decide : OneLine "string constant")
  · exact (by decide : OneLine "newline")
  · unfold described
    split
    any_goals decide
    split
    · decide
    · exact hshown htext

theorem Token.exists_read_of_scanFrom {place : Position} {cs : List Char} {fault : Fault}
    (h : scanFrom place cs = .error fault) :
    ∃ c rest, Piece.read c rest = .error fault.cause := by
  fun_induction scanFrom place cs with
  | case1 => cases h
  | case2 place c rest cause hpiece =>
    cases h
    exact ⟨c, rest, hpiece⟩
  | case3 place c rest piece hpiece found hfound ih =>
    cases h
    exact ih hfound
  | case4 => cases h

theorem Piece.oneLine_of_readDecimal {cs : List Char} {cause : Cause}
    (h : readDecimal cs = .error cause) : OneLine cause.message := by
  unfold readDecimal at h
  split at h
  · cases h
    decide
  · cases h

theorem Piece.oneLine_of_readNumeral {c : Char} {rest : List Char} {cause : Cause}
    (h : readNumeral c rest = .error cause) : OneLine cause.message := by
  unfold readNumeral at h
  split at h
  · split at h
    · simp only [readHexadecimal] at h
      split at h
      · cases h
        decide
      · cases h
    · exact oneLine_of_readDecimal h
  · exact oneLine_of_readDecimal h

/-- What is said of a text that cannot be cut into pieces is on one line: the only character that is
shown is one that no piece begins with. -/
theorem Piece.oneLine_of_read {c : Char} {rest : List Char} {cause : Cause}
    (h : read c rest = .error cause) : OneLine cause.message := by
  cases readBy_iff.mpr h with
  | blank _ h | lineBreak _ h | comment _ h | name _ _ _ h => cases h
  | string _ h =>
    unfold readString at h
    split at h <;> cases h <;> decide
  | quotedName _ h =>
    unfold readQuotedName at h
    split at h <;> cases h
    decide
  | numeral _ h => exact oneLine_of_readNumeral h
  | fraction _ _ h => exact oneLine_of_readDecimal h
  | rawString _ _ _ h =>
    simp only [readRawString] at h
    split at h
    · cases h
      decide
    · split at h <;> cases h
      decide
  | special _ h =>
    simp only [readSpecial] at h
    split at h
    · split at h <;> cases h
      decide
    · cases h
      decide
  | operator hc h =>
    unfold readOperator at h
    split at h
    · cases h
    · cases h
      simp only [beginsOperator, Bool.not_eq_true', Bool.or_eq_false_iff] at hc
      have hshown : OneLine c.toString := by
        rw [OneLine, Char.toString_eq_singleton, String.toList_singleton]
        exact List.forall_mem_singleton.mpr hc.1.1.1.2
      exact ((by decide : OneLine "unexpected character '").append hshown).append
        (by decide)

/-- What is printed for a fault is on one line. -/
theorem Script.oneLine_of_read {source : String} {fault : Fault} (h : read source = .error fault) :
    OneLine fault.text := by
  have hcause : OneLine fault.cause.message := by
    unfold read at h
    split at h
    · next tokens hscan =>
      obtain ⟨refusal, hrefusal, rfl⟩ := readAll_of_ofTokens_eq_error h
      have hindex := index_lt_of_scan hscan hrefusal
      have hfound := Expr.found_of_readAll_eq_error hrefusal (by simpa using hindex)
      rw [List.getElem?_map, List.getElem?_eq_getElem hindex] at hfound
      have hlines := Token.multiline_of_scanFrom hscan _ (List.getElem_mem hindex)
      rw [faultOf, ← Option.some.inj hfound]
      exact (by decide : OneLine "unexpected ").append (Lexeme.oneLine_described hlines)
    · next found hscan =>
      cases h
      obtain ⟨c, rest, hread⟩ := Token.exists_read_of_scanFrom hscan
      exact Piece.oneLine_of_read hread
  have hline : OneLine " at line " := by decide
  have hcolumn : OneLine ", column " := by decide
  exact (((hcause.append hline).append (oneLine_toString _)).append hcolumn).append
    (oneLine_toString _)

/-- **Every message is on one line.** -/
theorem Checker.oneLine_message {checker : Checker} (hbuilt : checker.registry.Built)
    {source : String} {finding : Finding} (h : finding ∈ (checker.check source).findings) :
    OneLine finding.message := by
  unfold check at h
  split at h
  · next script _ =>
    rcases List.mem_append.mp h with h | hinfo
    · rcases List.mem_append.mp h with herror | hwarning
      · cases herror
      · obtain ⟨step, hstep, hfinding⟩ := List.mem_filterMap.mp hwarning
        exact Finding.oneLine_of_ofStep? hbuilt hstep hfinding
    · obtain ⟨site, -, hfinding⟩ := List.mem_filterMap.mp hinfo
      exact Finding.oneLine_of_ofCall? hfinding
  · next fault hread =>
    obtain rfl := List.mem_singleton.mp h
    exact Script.oneLine_of_read hread

end TypeDrift
