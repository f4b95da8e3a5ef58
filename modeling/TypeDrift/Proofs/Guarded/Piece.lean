import TypeDrift.Proofs.Guarded.Numeral

/-! # Guarded reading of pieces

A guarded reader looks at the next character or two, takes them or stops, and answers with the kind of
the piece and the offset behind it.  It follows the reader of pieces (`piece_follows`).
-/
namespace TypeDrift

open Text

namespace Guarded

/-! ## The readers -/

section Readers
variable (source : List Char)

/-- A bare name. -/
def name (bound start : Nat) : Guarded Cause (Option Kind × Nat) := do
  let (_, stop) ← passWhile source Piece.isNameCharacter bound (← advance source start)
  let text ← slice source start stop
  .ok (some (Piece.kindOfName (String.ofList text)), stop)

/-- An operator between percent signs. -/
def special (bound start : Nat) : Guarded Cause (Option Kind × Nat) := do
  let (_, offset) ←
    passWhile source (fun c => !(c == '%' || isBreak c)) bound (← advance source start)
  if (← peek source offset) = some '%' then
    let stop ← advance source offset
    .ok (some .special, stop)
  else .error (.refused .unterminatedOperator)

/-- An operator that begins with the character `c`. -/
def operator (c : Char) (start : Nat) : Guarded Cause (Option Kind × Nat) := do
  let rest ← ahead source start
  match Piece.spellings.find? fun spelling => spelling.1.isPrefixOf rest with
  | none => .error (.refused (.strayCharacter c))
  | some (spelling, kind) =>
    let stop ← advanceTimes source spelling.length start
    .ok (some kind, stop)

/-- The kind of the piece that begins with the character `c`, and the offset behind it. -/
def piece (bound : Nat) (c : Char) (start : Nat) : Guarded Cause (Option Kind × Nat) := do
  if Piece.isBlank c then
    let stop ← advance source start
    .ok (none, stop)
  else if isBreak c then
    let stop ← advance source start
    .ok (some .newline, stop)
  else if c = '#' then
    let (_, stop) ← passWhile source (!isBreak ·) bound start
    .ok (none, stop)
  else if c = '"' ∨ c = '\'' then string source bound start
  else if c = '`' then quotedName source bound start
  else if isDigit c then numeral source bound start
  else
    let second ← peekSecond source start
    if c = '.' ∧ second.any isDigit then numeral source bound start
    else if (c = 'r' ∨ c = 'R') ∧ (second = some '"' ∨ second = some '\'') then
      rawString source bound start
    else if isLetter c || c == '.' || c == '_' then name source bound start
    else if c = '%' then special source bound start
    else operator source c start

end Readers

/-! ## Each follows its counterpart -/

variable {source rest : List Char} {offset bound : Nat}

theorem name_follows {c : Char} (hc : c ≠ '\r') (h : At source offset (c :: rest))
    (hbound : rest.length < bound) :
    Follows source (name source bound offset) (.ok (ending (Piece.readName c rest))) := by
  obtain ⟨next, hnext, hat⟩ := h.advance_of_ne (ε := Cause) hc
  obtain ⟨stop, hstop, hat'⟩ := hat.passWhile (ε := Cause) (p := Piece.isNameCharacter)
    (by decide +kernel) hbound
  have htext : c :: rest =
      (c :: rest.takeWhile Piece.isNameCharacter) ++ rest.dropWhile Piece.isNameCharacter := by
    rw [List.cons_append, List.takeWhile_append_dropWhile]
  rw [htext] at h
  exact .step hnext (.step hstop (.step (h.slice hat') (.ok _ hat')))

theorem special_follows (h : At source offset ('%' :: rest)) (hbound : rest.length < bound) :
    Follows source (special source bound offset) ((Piece.readSpecial rest).map ending) := by
  obtain ⟨next, hnext, hat⟩ := h.advance_of_ne (ε := Cause) (by decide)
  obtain ⟨stop, hstop, hat'⟩ := hat.passWhile (ε := Cause)
    (p := fun c => !(c == '%' || isBreak c)) (by decide) hbound
  rw [special, Piece.readSpecial]
  refine .step hnext (.step hstop (.step hat'.peek ?_))
  cases hdrop : rest.dropWhile fun c => !(c == '%' || isBreak c) with
  | nil => exact .refused _
  | cons c left =>
    rw [hdrop] at hat'
    by_cases hpercent : c = '%'
    · subst hpercent
      obtain ⟨behind, hbehind, hat''⟩ := hat'.advance_of_ne (by decide)
      simp only [List.head?_cons, if_true]
      exact .step hbehind (.ok _ hat'')
    · simp only [List.head?_cons, Option.some.injEq, hpercent, if_false]
      exact .refused _

theorem operator_follows {c : Char} (h : At source offset (c :: rest)) :
    Follows source (operator source c offset) ((Piece.readOperator c rest).map ending) := by
  rw [operator, Piece.readOperator]
  refine .step h.ahead ?_
  cases hfind : Piece.spellings.find? fun spelling => spelling.1.isPrefixOf (c :: rest) with
  | none => exact .refused _
  | some spelling =>
    have hfits := List.find?_some hfind
    obtain ⟨left, hleft⟩ := List.isPrefixOf_iff_prefix.mp hfits
    have hplain : ∀ d ∈ spelling.1, d ≠ '\r' := by
      rintro d hd rfl
      have hstop := Piece.isStop_of_mem_spelling (List.mem_of_find?_eq_some hfind) _ hd
      exact absurd hstop (by decide)
    obtain ⟨stop, hstop, hat⟩ := (hleft.symm ▸ h).advanceTimes (ε := Cause) hplain
    have hdrop : (c :: rest).drop spelling.1.length = left := by rw [← hleft, List.drop_left]
    refine .step hstop ?_
    simp only [Except.map, ending, hdrop]
    exact .ok _ hat

/-- A line break is one step. -/
theorem ending_readBreak (c : Char) (rest : List Char) :
    ending (Piece.readBreak c rest) = (some .newline, behindStep (c :: rest)) := by
  rcases step_cases c rest with ⟨tail, rfl, rfl, -, hbehind⟩ | ⟨hpair, -, hbehind⟩
  · rw [hbehind]
    rfl
  · rw [hbehind]
    cases rest with
    | nil => rfl
    | cons d tail =>
      have hplain : ¬(c = '\r' ∧ d = '\n') := by simpa using hpair
      rw [Piece.readBreak, if_neg hplain]
      rfl

/-- The letter of raw strings begins one if a quote follows, and a name otherwise. -/
theorem letter_follows {c : Char} (hletter : c = 'r' ∨ c = 'R') (h : At source offset (c :: rest))
    (hbound : (c :: rest).length < bound) :
    Follows source (piece source bound c offset) ((Piece.read c rest).map ending) := by
  have hshorter : rest.length < bound := Nat.lt_of_succ_lt hbound
  obtain ⟨hblank, hbreak, hdigit, hname⟩ : Piece.isBlank c = false ∧ isBreak c = false ∧
      isDigit c = false ∧ (isLetter c || c == '.' || c == '_') = true := by
    rcases hletter with rfl | rfl <;> decide +kernel
  obtain ⟨hcomment, hstring, hquoted, hpoint⟩ :
      c ≠ '#' ∧ ¬(c = '"' ∨ c = '\'') ∧ c ≠ '`' ∧ c ≠ '.' := by
    rcases hletter with rfl | rfl <;> decide
  have hreturn : c ≠ '\r' := by rcases hletter with rfl | rfl <;> decide
  simp only [piece, Piece.read, hblank, hbreak, hdigit, hname, hcomment, hstring, hquoted, hpoint,
    hletter, Bool.false_eq_true, if_false, if_true, false_and, true_and]
  refine .step h.peekSecond ?_
  cases rest with
  | nil =>
    rw [if_neg (by simp)]
    exact name_follows hreturn h hshorter
  | cons quote inner =>
    by_cases hquote : quote = '"' ∨ quote = '\''
    · rw [if_pos (by simpa using hquote)]
      simp only [if_pos hquote]
      exact rawString_follows hletter hquote h (Nat.lt_of_succ_lt hshorter)
    · rw [if_neg (by simpa using hquote)]
      simp only [if_neg hquote]
      exact name_follows hreturn h hshorter

/-- **A guarded reader of pieces follows the reader of pieces.** -/
theorem piece_follows {c : Char} (h : At source offset (c :: rest))
    (hbound : (c :: rest).length < bound) :
    Follows source (piece source bound c offset) ((Piece.read c rest).map ending) := by
  have hshorter : rest.length < bound := Nat.lt_of_succ_lt hbound
  by_cases hletter : c = 'r' ∨ c = 'R'
  · exact letter_follows hletter h hbound
  unfold piece Piece.read
  -- The tests in their order, up to where a second character is looked at.
  by_cases hblank : Piece.isBlank c = true
  · have hreturn : c ≠ '\r' := by
      rintro rfl
      cases hblank
    obtain ⟨stop, hstop, hat⟩ := h.advance_of_ne hreturn
    rw [if_pos hblank, if_pos hblank]
    exact .step hstop (.ok _ hat)
  rw [if_neg hblank, if_neg hblank]
  by_cases hbreak : isBreak c = true
  · obtain ⟨stop, hstop, hat⟩ := h.advance
    rw [if_pos hbreak, if_pos hbreak]
    refine .step hstop ?_
    simp only [Except.map, ending_readBreak]
    exact .ok _ hat
  rw [if_neg hbreak, if_neg hbreak]
  have hreturn : c ≠ '\r' := by
    rintro rfl
    exact hbreak rfl
  by_cases hcomment : c = '#'
  · subst hcomment
    obtain ⟨stop, hstop, hat⟩ := h.passWhile (p := (!isBreak ·)) (by decide) hbound
    rw [if_pos rfl, if_pos rfl]
    exact .step hstop (.ok _ hat)
  rw [if_neg hcomment, if_neg hcomment]
  by_cases hstring : c = '"' ∨ c = '\''
  · rw [if_pos hstring, if_pos hstring]
    exact string_follows hstring h hshorter
  rw [if_neg hstring, if_neg hstring]
  by_cases hquoted : c = '`'
  · subst hquoted
    rw [if_pos rfl, if_pos rfl]
    exact quotedName_follows h hshorter
  rw [if_neg hquoted, if_neg hquoted]
  by_cases hdigit : isDigit c = true
  · have hnumeral := numeral_follows h hbound
    rw [if_pos hdigit] at hnumeral
    rw [if_pos hdigit, if_pos hdigit]
    exact hnumeral
  rw [if_neg hdigit, if_neg hdigit]
  refine .step (b := rest.head?) h.peekSecond ?_
  by_cases hpoint : c = '.' ∧ Piece.headIs isDigit rest = true
  · have hnumeral := numeral_follows h hbound
    rw [if_neg hdigit] at hnumeral
    have hpoint' : c = '.' ∧ rest.head?.any isDigit = true := hpoint
    rw [if_pos hpoint, if_pos hpoint']
    exact hnumeral
  have hpoint' : ¬(c = '.' ∧ rest.head?.any isDigit = true) := hpoint
  rw [if_neg hpoint, if_neg hpoint', if_neg (fun hraw => hletter hraw.1), if_neg hletter]
  by_cases hname : (isLetter c || c == '.' || c == '_') = true
  · rw [if_pos hname, if_pos hname]
    exact name_follows hreturn h hshorter
  rw [if_neg hname, if_neg hname]
  by_cases hspecial : c = '%'
  · subst hspecial
    rw [if_pos rfl, if_pos rfl]
    exact special_follows h hshorter
  · rw [if_neg hspecial, if_neg hspecial]
    exact operator_follows h

end Guarded
end TypeDrift
