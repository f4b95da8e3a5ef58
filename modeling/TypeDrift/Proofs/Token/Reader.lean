import TypeDrift.Token.Piece

/-! # Which reader reads a piece

`Piece.read` asks one question after the other, and the answer decides on the reader.  Every reader
has its own test, and no two tests hold of one text; so the questions may be asked in any order
(`Piece.readBy_iff`), and what holds of every piece is shown reader by reader.
-/
namespace TypeDrift

open Text

namespace Piece

/-- The first characters of names. -/
def beginsName (c : Char) : Bool := isLetter c || c == '.' || c == '_'

/-- The characters that are left to the operators. -/
def beginsOperator (c : Char) : Bool :=
  !(isBlank c || isBreak c || isDigit c || beginsName c || ['#', '"', '\'', '`', '%'].contains c)

/-- What a text is read as, by the one reader that its beginning leads to. -/
inductive ReadBy (c : Char) (rest : List Char) (result : Except Cause Piece) : Prop where
  | blank (hc : isBlank c = true) (h : .ok ⟨none, [c], rest⟩ = result)
  | lineBreak (hc : isBreak c = true) (h : .ok (readBreak c rest) = result)
  | comment (hc : c = '#') (h : .ok (readComment rest) = result)
  | string (hc : c = '"' ∨ c = '\'') (h : readString c rest = result)
  | quotedName (hc : c = '`') (h : readQuotedName rest = result)
  | numeral (hc : isDigit c = true) (h : readNumeral c rest = result)
  /-- A numeral that begins with its point. -/
  | fraction (hc : c = '.') (hrest : headIs isDigit rest = true)
    (h : readDecimal (c :: rest) = result)
  | rawString {quote : Char} {inner : List Char} (hc : c = 'r' ∨ c = 'R')
    (hquote : quote = '"' ∨ quote = '\'') (hrest : rest = quote :: inner)
    (h : readRawString c quote inner = result)
  /-- A name is neither the point of a numeral nor the letter of a raw string. -/
  | name (hc : beginsName c = true) (hpoint : c = '.' → headIs isDigit rest = false)
    (hletter : c = 'r' ∨ c = 'R' → ∀ quote ∈ rest.head?, ¬(quote = '"' ∨ quote = '\''))
    (h : .ok (readName c rest) = result)
  | special (hc : c = '%') (h : readSpecial rest = result)
  | operator (hc : beginsOperator c = true) (h : readOperator c rest = result)

theorem readBy_read (c : Char) (rest : List Char) : ReadBy c rest (read c rest) := by
  unfold read
  by_cases hblank : isBlank c = true
  · rw [if_pos hblank]
    exact .blank hblank rfl
  rw [if_neg hblank]
  by_cases hbreak : isBreak c = true
  · rw [if_pos hbreak]
    exact .lineBreak hbreak rfl
  rw [if_neg hbreak]
  by_cases hcomment : c = '#'
  · rw [if_pos hcomment]
    exact .comment hcomment rfl
  rw [if_neg hcomment]
  by_cases hstring : c = '"' ∨ c = '\''
  · rw [if_pos hstring]
    exact .string hstring rfl
  rw [if_neg hstring]
  by_cases htick : c = '`'
  · rw [if_pos htick]
    exact .quotedName htick rfl
  rw [if_neg htick]
  by_cases hdigit : isDigit c = true
  · rw [if_pos hdigit]
    exact .numeral hdigit rfl
  rw [if_neg hdigit]
  by_cases hpoint : c = '.' ∧ headIs isDigit rest = true
  · rw [if_pos hpoint]
    exact .fraction hpoint.1 hpoint.2 rfl
  rw [if_neg hpoint]
  have hplain : c = '.' → headIs isDigit rest = false := fun hc => by
    simpa [hc] using hpoint
  by_cases hletter : c = 'r' ∨ c = 'R'
  · rw [if_pos hletter]
    have hname : beginsName c = true := by
      rcases hletter with rfl | rfl <;> decide
    cases rest with
    | nil => exact .name hname hplain (fun _ _ hquote => nomatch hquote) rfl
    | cons quote inner =>
      by_cases hquote : quote = '"' ∨ quote = '\''
      · simp only [if_pos hquote]
        exact .rawString hletter hquote rfl rfl
      · simp only [if_neg hquote]
        exact .name hname hplain (fun _ d hd => Option.some.inj hd ▸ hquote) rfl
  rw [if_neg hletter]
  by_cases hname : (isLetter c || c == '.' || c == '_') = true
  · rw [if_pos hname]
    exact .name hname hplain (fun h => absurd h hletter) rfl
  rw [if_neg hname]
  by_cases hspecial : c = '%'
  · rw [if_pos hspecial]
    exact .special hspecial rfl
  rw [if_neg hspecial]
  refine .operator ?_ rfl
  simp only [not_or] at hstring
  simp_all [beginsOperator, beginsName]

theorem isLetter_of_isDigit {c : Char} (h : isDigit c = true) : isLetter c = false := by
  have halpha : c.isAlpha =
      (decide ('A' ≤ c ∧ c ≤ 'Z') || (decide ('a' ≤ c) && decide (c ≤ 'z'))) := rfl
  simp only [isDigit, Bool.and_eq_true, decide_eq_true_eq, Char.le_def, UInt32.le_iff_toNat_le] at h
  have hnine : c.toNat ≤ 57 := h.2
  have hsmall : c.toNat < 128 := by omega
  have hupper : ¬ 'A' ≤ c := fun hle => absurd (show 65 ≤ c.toNat from hle) (by omega)
  have hlower : ¬ 'a' ≤ c := fun hle => absurd (show 97 ≤ c.toNat from hle) (by omega)
  rw [isLetter, if_pos hsmall, halpha]
  simp [hupper, hlower]

theorem isDigit_of_beginsName {c : Char} (h : beginsName c = true) : isDigit c = false := by
  cases hdigit : isDigit c with
  | false => rfl
  | true =>
    rw [beginsName, isLetter_of_isDigit hdigit] at h
    simp only [Bool.false_or, Bool.or_eq_true, beq_iff_eq] at h
    rcases h with rfl | rfl <;> cases hdigit

/-- A character that begins neither a gap nor a line break nor anything in quotes. -/
structure Plain (c : Char) : Prop where
  blank : ¬isBlank c = true
  lineBreak : ¬isBreak c = true
  comment : c ≠ '#'
  quote : ¬(c = '"' ∨ c = '\'')
  tick : c ≠ '`'

/-- A character of a class that has none of them is plain. -/
theorem plain_of_class {p : Char → Bool} {c : Char} (h : p c = true)
    (hp : [' ', '\t', '\x0c', '\n', '\r', '#', '"', '\'', '`'].all (fun d => !p d) = true) :
    Plain c := by
  have hne : ∀ d ∈ [' ', '\t', '\x0c', '\n', '\r', '#', '"', '\'', '`'], c ≠ d := by
    rintro d hd rfl
    simpa [h] using List.all_eq_true.mp hp c hd
  simp only [List.mem_cons, List.not_mem_nil, or_false, forall_eq_or_imp, forall_eq] at hne
  constructor <;> simp_all [isBlank, isBreak]

/-- Which of the later readers reads what begins with a plain character. -/
theorem Plain.read_eq {c : Char} (h : Plain c) (rest : List Char) :
    read c rest =
      if isDigit c then readNumeral c rest
      else if c = '.' ∧ headIs isDigit rest then readDecimal (c :: rest)
      else if c = 'r' ∨ c = 'R' then
        match rest with
        | quote :: inner =>
          if quote = '"' ∨ quote = '\'' then readRawString c quote inner else .ok (readName c rest)
        | [] => .ok (readName c rest)
      else if beginsName c then .ok (readName c rest)
      else if c = '%' then readSpecial rest
      else readOperator c rest := by
  unfold read
  rw [if_neg h.blank, if_neg h.lineBreak, if_neg h.comment, if_neg h.quote, if_neg h.tick]
  rfl

theorem ReadBy.read_eq {c : Char} {rest : List Char} {result : Except Cause Piece}
    (h : ReadBy c rest result) : read c rest = result := by
  cases h with
  | blank hc h => exact (if_pos hc).trans h
  | lineBreak hc h =>
    have hc : c = '\n' ∨ c = '\r' := by simpa [isBreak] using hc
    rcases hc with rfl | rfl <;> exact h
  | comment hc h | quotedName hc h | special hc h =>
    subst hc
    exact h
  | string hc h => rcases hc with rfl | rfl <;> exact h
  | numeral hc h =>
    have hplain := plain_of_class hc (by decide)
    rw [hplain.read_eq, if_pos hc, h]
  | fraction hc hrest h =>
    have hplain : Plain c := plain_of_class (p := (· == '.')) (by simpa using hc) (by decide)
    rw [hplain.read_eq, if_neg (by rw [hc]; decide), if_pos ⟨hc, hrest⟩, h]
  | rawString hc hquote hrest h =>
    subst hrest
    rcases hc with rfl | rfl <;> exact (if_pos hquote).trans h
  | name hc hpoint hletter h =>
    have hplain := plain_of_class hc (by decide)
    have hdigit : ¬isDigit c = true := by simp [isDigit_of_beginsName hc]
    have hpoint' : ¬(c = '.' ∧ headIs isDigit rest = true) := fun hboth => by
      simp [hpoint hboth.1] at hboth
    rw [hplain.read_eq, if_neg hdigit, if_neg hpoint']
    by_cases hraw : c = 'r' ∨ c = 'R'
    · rw [if_pos hraw]
      cases rest with
      | nil => exact h
      | cons quote inner => exact (if_neg (hletter hraw quote rfl)).trans h
    · rw [if_neg hraw]
      exact (if_pos hc).trans h
  | operator hc h =>
    simp only [beginsOperator, Bool.not_eq_true', Bool.or_eq_false_iff] at hc
    obtain ⟨⟨⟨⟨hblank, hbreak⟩, hdigit⟩, hname⟩, hother⟩ := hc
    simp only [List.contains_eq_mem, List.mem_cons, List.not_mem_nil, or_false,
      decide_eq_false_iff_not, not_or] at hother
    obtain ⟨hcomment, hdouble, hsingle, htick, hspecial⟩ := hother
    have hplain : Plain c :=
      ⟨by simp [hblank], by simp [hbreak], hcomment, by simp [hdouble, hsingle], htick⟩
    have hne {d : Char} (hd : beginsName d = true) : c ≠ d := by
      rintro rfl
      rw [hd] at hname
      cases hname
    rw [hplain.read_eq, if_neg (by simp [hdigit]), if_neg fun hpoint => hne (by decide) hpoint.1,
      if_neg (not_or.mpr ⟨hne (by decide), hne (by decide)⟩), if_neg (by simp [hname]),
      if_neg hspecial, h]

/-- **No two readers want one text.** -/
theorem readBy_iff {c : Char} {rest : List Char} {result : Except Cause Piece} :
    ReadBy c rest result ↔ read c rest = result :=
  ⟨ReadBy.read_eq, fun h => h ▸ readBy_read c rest⟩

end Piece
end TypeDrift
