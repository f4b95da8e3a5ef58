import TypeDrift.Numeral.Decimal
import TypeDrift.Text.Letter
import TypeDrift.Token.Lexeme
import TypeDrift.Token.Quoted

/-!
Pieces. A script is a row of pieces, each of which is a token or a gap (a blank or a comment).
`Piece.read` takes the piece at the beginning of a text. What it takes and what it leaves are always
the text again, and it takes something (`Piece.read_append`, `Piece.read_text_ne_nil`); so a text
has finitely many pieces, and nothing of it is lost between them.
-/
namespace TypeDrift

/-- The piece at the beginning of a text, and the text behind it. A gap has no kind. -/
structure Piece where
  kind : Option Kind
  text : List Char
  rest : List Char
deriving Repr

namespace Piece

/-- The spaces between tokens. -/
def isBlank (c : Char) : Bool := c == ' ' || c == '\t' || c == '\x0c'

/-- The characters of a name behind its first one. -/
def isNameCharacter (c : Char) : Bool := Text.isLetterOrDigit c || c == '.' || c == '_'

/-- The operators and brackets with fixed spellings. Of two that begin alike the longer one stands
first, so that the first one that fits is the longest. -/
def spellings : List (List Char × Kind) :=
  [(['<', '<', '-'], .superAssign), (['<', '-'], .leftAssign), (['<', '='], .lessEqual),
    (['<'], .less), (['-', '>', '>'], .superRightAssign), (['-', '>'], .rightAssign),
    (['-'], .minus), (['=', '='], .equal), (['='], .equalAssign), (['!', '='], .notEqual),
    (['!'], .bang), (['>', '='], .greaterEqual), (['>'], .greater), (['&', '&'], .doubleAmpersand),
    (['&'], .ampersand), (['|', '|'], .doubleBar), (['|', '>'], .pipe), (['|'], .bar),
    ([':', ':', ':'], .tripleColon), ([':', ':'], .doubleColon), ([':', '='], .colonAssign),
    ([':'], .colon), (['*', '*'], .caret), (['*'], .star), (['[', '['], .doubleLeftBracket),
    (['['], .leftBracket), ([']'], .rightBracket), (['('], .leftParen), ([')'], .rightParen),
    (['{'], .leftBrace), (['}'], .rightBrace), ([','], .comma), ([';'], .semicolon),
    (['~'], .tilde), (['?'], .question), (['+'], .plus), (['/'], .slash), (['^'], .caret),
    (['$'], .dollar), (['@'], .atSign), (['\\'], .backslash)]

/-- The operator at the beginning of a text. -/
def readOperator (c : Char) (rest : List Char) : Except Cause Piece :=
  match spellings.find? fun spelling => spelling.1.isPrefixOf (c :: rest) with
  | some (spelling, kind) => .ok ⟨some kind, spelling, (c :: rest).drop spelling.length⟩
  | none => .error (.strayCharacter c)

/-- A string behind its opening quote. -/
def readString (quote : Char) (rest : List Char) : Except Cause Piece :=
  match Quoted.split quote rest with
  | .ok (body, left) =>
    .ok ⟨some (.string (String.ofList (Quoted.decode (Text.steps body)))),
      quote :: (body ++ [quote]), left⟩
  | .error .inEscape => .error .unterminatedEscape
  | .error .inText => .error .unterminatedString

/-- A name in backticks, behind the first one. -/
def readQuotedName (rest : List Char) : Except Cause Piece :=
  match Quoted.split '`' rest with
  | .ok (body, left) => .ok ⟨some .identifier, '`' :: (body ++ ['`']), left⟩
  | .error _ => .error .unterminatedName

/-- The bracket that closes a raw string opened with `c`. -/
def closingBracket? (c : Char) : Option Char :=
  if c = '(' then some ')'
  else if c = '[' then some ']'
  else if c = '{' then some '}'
  else none

/-- The closing bracket that goes with the first character of a text, and the text behind it. -/
def openBracket? : List Char → Option (Char × Char × List Char)
  | [] => none
  | c :: rest => (closingBracket? c).map fun closing => (c, closing, rest)

/-- A raw string that begins with `letter` and `quote`, behind the two: dashes, a bracket, the
contents, and then the bracket, the dashes and the quote again. -/
def readRawString (letter quote : Char) (rest : List Char) : Except Cause Piece :=
  let dashes := rest.takeWhile (· == '-')
  match openBracket? (rest.dropWhile (· == '-')) with
  | none => .error .malformedRawString
  | some (opening, closing, inner) =>
    let mark := closing :: (dashes ++ [quote])
    match Quoted.splitAtMark mark inner with
    | none => .error .unterminatedRawString
    | some (body, left) =>
      .ok ⟨some (.string (String.ofList body)),
        letter :: quote :: (dashes ++ opening :: (body ++ mark)), left⟩

/-- An operator between percent signs, behind the first one. It stays on its line. -/
def readSpecial (rest : List Char) : Except Cause Piece :=
  let body := rest.takeWhile fun c => !(c == '%' || Text.isBreak c)
  match rest.dropWhile fun c => !(c == '%' || Text.isBreak c) with
  | c :: left =>
    if c = '%' then .ok ⟨some .special, '%' :: (body ++ ['%']), left⟩
    else .error .unterminatedOperator
  | [] => .error .unterminatedOperator

/-- A numeral without its suffix, closed by the suffix that follows it, if one does. `whole` says
whether the suffix `L` makes it an integer, `plain` is its kind without a suffix. -/
def closeNumeral (text : List Char) (whole : Bool) (plain : Kind) : List Char → Piece
  | c :: rest =>
    if c = 'L' then ⟨some (if whole then .integer else .float), text ++ ['L'], rest⟩
    else if c = 'i' then ⟨some .complex, text ++ ['i'], rest⟩
    else ⟨some plain, text, c :: rest⟩
  | [] => ⟨some plain, text, []⟩

/-- A decimal numeral. -/
def readDecimal (cs : List Char) : Except Cause Piece :=
  match Decimal.read cs with
  | none => .error .malformedExponent
  | some (decimal, left) =>
    .ok (closeNumeral decimal.text (!decimal.isFractional || decimal.isWhole)
      (if decimal.isFractional then .float else .integer) left)

/-- A hexadecimal numeral that begins with a zero and `letter`, behind the two. -/
def readHexadecimal (letter : Char) (rest : List Char) : Except Cause Piece :=
  let digits := rest.takeWhile Text.isHexDigit
  if digits.isEmpty then .error .malformedHexadecimal
  else .ok (closeNumeral ('0' :: letter :: digits) true .integer (rest.dropWhile Text.isHexDigit))

/-- A numeral that begins with the character `c`. -/
def readNumeral (c : Char) : List Char → Except Cause Piece
  | x :: rest =>
    if c = '0' ∧ (x = 'x' ∨ x = 'X') then readHexadecimal x rest else readDecimal (c :: x :: rest)
  | [] => readDecimal [c]

/-- The kind of a bare name: a reserved word, or an identifier. -/
def kindOfName (name : String) : Kind :=
  match Keyword.ofSpelling? name with
  | some word => .keyword word
  | none => .identifier

/-- A bare name that begins with the character `c`. -/
def readName (c : Char) (rest : List Char) : Piece :=
  let text := c :: rest.takeWhile isNameCharacter
  ⟨some (kindOfName (String.ofList text)), text, rest.dropWhile isNameCharacter⟩

/-- A line break that begins with the character `c`. -/
def readBreak (c : Char) : List Char → Piece
  | x :: rest =>
    if c = '\r' ∧ x = '\n' then ⟨some .newline, [c, x], rest⟩ else ⟨some .newline, [c], x :: rest⟩
  | [] => ⟨some .newline, [c], []⟩

/-- A comment, up to the end of its line. -/
def readComment (rest : List Char) : Piece :=
  ⟨none, '#' :: rest.takeWhile (!Text.isBreak ·), rest.dropWhile (!Text.isBreak ·)⟩

/-- Whether a text begins with a character for which `p` holds. -/
def headIs (p : Char → Bool) (cs : List Char) : Bool := cs.head?.any p

/-- The piece at the beginning of the text `c :: rest`. -/
def read (c : Char) (rest : List Char) : Except Cause Piece :=
  if isBlank c then .ok ⟨none, [c], rest⟩
  else if Text.isBreak c then .ok (readBreak c rest)
  else if c = '#' then .ok (readComment rest)
  else if c = '"' ∨ c = '\'' then readString c rest
  else if c = '`' then readQuotedName rest
  else if Text.isDigit c then readNumeral c rest
  else if c = '.' ∧ headIs Text.isDigit rest then readDecimal (c :: rest)
  else if c = 'r' ∨ c = 'R' then
    match rest with
    | quote :: inner =>
      if quote = '"' ∨ quote = '\'' then readRawString c quote inner else .ok (readName c rest)
    | [] => .ok (readName c rest)
  else if Text.isLetter c || c == '.' || c == '_' then .ok (readName c rest)
  else if c = '%' then readSpecial rest
  else readOperator c rest

/-! ### What is taken and what is left -/

/-- A piece taken from a text: what it took and what it left are the text, and it took something. -/
structure Takes (piece : Piece) (cs : List Char) : Prop where
  append : piece.text ++ piece.rest = cs
  text_ne_nil : piece.text ≠ []

theorem closeNumeral_takes {text rest : List Char} (h : text ≠ []) (whole : Bool) (plain : Kind) :
    (closeNumeral text whole plain rest).Takes (text ++ rest) := by
  cases rest with
  | nil => exact ⟨rfl, h⟩
  | cons c tail =>
    simp only [closeNumeral]
    split
    · next hc => exact ⟨by simp [hc], by simp⟩
    · split
      · next hc => exact ⟨by simp [hc], by simp⟩
      · exact ⟨rfl, h⟩

theorem readDecimal_takes {cs : List Char} {piece : Piece} (hcs : headIs Text.isDigit cs ∨
    headIs (· == '.') cs) (h : readDecimal cs = .ok piece) : piece.Takes cs := by
  unfold readDecimal at h
  split at h
  · cases h
  · next decimal left hread =>
    cases h
    have happend := Decimal.text_read hread
    rw [← happend]
    refine closeNumeral_takes ?_ _ _
    intro hnil
    cases cs with
    | nil => simp [headIs] at hcs
    | cons c tail =>
      simp only [Decimal.read, Option.map_eq_some_iff] at hread
      obtain ⟨exponents, _, heq⟩ := hread
      cases heq
      simp only [Decimal.text, List.append_eq_nil_iff] at hnil
      obtain ⟨⟨hwhole, hfraction⟩, _⟩ := hnil
      cases hdigit : Text.isDigit c with
      | true => simp [hdigit] at hwhole
      | false =>
        have hpoint : c = '.' := by simpa [headIs, hdigit] using hcs
        subst hpoint
        simp [hdigit, Decimal.readFraction] at hfraction

theorem readHexadecimal_takes {letter : Char} {rest : List Char} {piece : Piece}
    (h : readHexadecimal letter rest = .ok piece) : piece.Takes ('0' :: letter :: rest) := by
  unfold readHexadecimal at h
  simp only at h
  split at h
  · cases h
  · cases h
    have hall : '0' :: letter :: rest.takeWhile Text.isHexDigit ++ rest.dropWhile Text.isHexDigit =
        '0' :: letter :: rest := by simp [List.takeWhile_append_dropWhile]
    rw [← hall]
    exact closeNumeral_takes (by simp) true .integer

theorem readNumeral_takes {c : Char} {rest : List Char} {piece : Piece}
    (hc : Text.isDigit c = true) (h : readNumeral c rest = .ok piece) :
    piece.Takes (c :: rest) := by
  cases rest with
  | nil => exact readDecimal_takes (.inl (by simpa [headIs] using hc)) h
  | cons x tail =>
    simp only [readNumeral] at h
    split at h
    · next hex => exact hex.1 ▸ readHexadecimal_takes h
    · exact readDecimal_takes (.inl (by simpa [headIs] using hc)) h

theorem readString_takes {quote : Char} {rest : List Char} {piece : Piece}
    (h : readString quote rest = .ok piece) : piece.Takes (quote :: rest) := by
  unfold readString at h
  split at h
  · next body left hsplit =>
    cases h
    exact ⟨by simpa using Quoted.split_append hsplit, by simp⟩
  · cases h
  · cases h

theorem readQuotedName_takes {rest : List Char} {piece : Piece}
    (h : readQuotedName rest = .ok piece) : piece.Takes ('`' :: rest) := by
  unfold readQuotedName at h
  split at h
  · next body left hsplit =>
    cases h
    exact ⟨by simpa using Quoted.split_append hsplit, by simp⟩
  · cases h

theorem readRawString_takes {letter quote : Char} {rest : List Char} {piece : Piece}
    (h : readRawString letter quote rest = .ok piece) : piece.Takes (letter :: quote :: rest) := by
  unfold readRawString at h
  simp only at h
  split at h
  · cases h
  · next opening closing inner hopen =>
    split at h
    · cases h
    · next body left hsplit =>
      cases h
      refine ⟨?_, by simp⟩
      have hrest : rest.dropWhile (· == '-') = opening :: inner := by
        cases hdrop : rest.dropWhile (· == '-') with
        | nil => simp [hdrop, openBracket?] at hopen
        | cons c tail =>
          simp only [hdrop, openBracket?, Option.map_eq_some_iff] at hopen
          obtain ⟨_, _, heq⟩ := hopen
          cases heq
          rfl
      have hinner := Quoted.splitAtMark_append hsplit
      have hall := List.takeWhile_append_dropWhile (p := (· == '-')) (l := rest)
      rw [hrest, ← hinner] at hall
      simpa using hall

theorem readSpecial_takes {rest : List Char} {piece : Piece}
    (h : readSpecial rest = .ok piece) : piece.Takes ('%' :: rest) := by
  unfold readSpecial at h
  simp only at h
  split at h
  · next c left hdrop =>
    split at h
    · next hc =>
      cases h
      refine ⟨?_, by simp⟩
      have hall := List.takeWhile_append_dropWhile
        (p := fun c => !(c == '%' || Text.isBreak c)) (l := rest)
      rw [hdrop, hc] at hall
      simpa using hall
    · cases h
  · cases h

theorem readName_takes (c : Char) (rest : List Char) : (readName c rest).Takes (c :: rest) :=
  ⟨by simp [readName, List.takeWhile_append_dropWhile], by simp [readName]⟩

theorem readBreak_takes (c : Char) (rest : List Char) : (readBreak c rest).Takes (c :: rest) := by
  cases rest with
  | nil => exact ⟨rfl, by simp [readBreak]⟩
  | cons x tail =>
    simp only [readBreak]
    split
    · exact ⟨rfl, by simp⟩
    · exact ⟨rfl, by simp⟩

theorem readComment_takes (rest : List Char) : (readComment rest).Takes ('#' :: rest) :=
  ⟨by simp [readComment, List.takeWhile_append_dropWhile], by simp [readComment]⟩

theorem spelling_ne_nil {spelling : List Char × Kind} (h : spelling ∈ spellings) :
    spelling.1 ≠ [] := by
  revert spelling
  decide

theorem readOperator_takes {c : Char} {rest : List Char} {piece : Piece}
    (h : readOperator c rest = .ok piece) : piece.Takes (c :: rest) := by
  unfold readOperator at h
  split at h
  · next spelling kind hfind =>
    cases h
    have hfits := List.find?_some hfind
    exact ⟨List.prefix_iff_eq_append.1 (List.isPrefixOf_iff_prefix.1 hfits),
      spelling_ne_nil (List.mem_of_find?_eq_some hfind)⟩
  · cases h

theorem read_takes {c : Char} {rest : List Char} {piece : Piece} (h : read c rest = .ok piece) :
    piece.Takes (c :: rest) := by
  unfold read at h
  by_cases hblank : isBlank c = true
  · rw [if_pos hblank] at h
    cases h
    exact ⟨rfl, by simp⟩
  rw [if_neg hblank] at h
  by_cases hbreak : Text.isBreak c = true
  · rw [if_pos hbreak] at h
    cases h
    exact readBreak_takes c rest
  rw [if_neg hbreak] at h
  by_cases hcomment : c = '#'
  · rw [if_pos hcomment] at h
    cases h
    exact hcomment ▸ readComment_takes rest
  rw [if_neg hcomment] at h
  by_cases hstring : c = '"' ∨ c = '\''
  · rw [if_pos hstring] at h
    exact readString_takes h
  rw [if_neg hstring] at h
  by_cases htick : c = '`'
  · rw [if_pos htick] at h
    exact htick ▸ readQuotedName_takes h
  rw [if_neg htick] at h
  by_cases hdigit : Text.isDigit c = true
  · rw [if_pos hdigit] at h
    exact readNumeral_takes hdigit h
  rw [if_neg hdigit] at h
  by_cases hpoint : c = '.' ∧ headIs Text.isDigit rest = true
  · rw [if_pos hpoint] at h
    exact readDecimal_takes (.inr (by simp [headIs, hpoint.1])) h
  rw [if_neg hpoint] at h
  by_cases hletter : c = 'r' ∨ c = 'R'
  · rw [if_pos hletter] at h
    cases rest with
    | nil =>
      cases h
      exact readName_takes c _
    | cons quote inner =>
      simp only at h
      by_cases hquote : quote = '"' ∨ quote = '\''
      · rw [if_pos hquote] at h
        exact readRawString_takes h
      · rw [if_neg hquote] at h
        cases h
        exact readName_takes c _
  rw [if_neg hletter] at h
  by_cases hname : (Text.isLetter c || c == '.' || c == '_') = true
  · rw [if_pos hname] at h
    cases h
    exact readName_takes c rest
  rw [if_neg hname] at h
  by_cases hspecial : c = '%'
  · rw [if_pos hspecial] at h
    exact hspecial ▸ readSpecial_takes h
  rw [if_neg hspecial] at h
  exact readOperator_takes h

/-- Nothing is lost between a piece and the text behind it. -/
theorem read_append {c : Char} {rest : List Char} {piece : Piece} (h : read c rest = .ok piece) :
    piece.text ++ piece.rest = c :: rest := (read_takes h).append

theorem read_text_ne_nil {c : Char} {rest : List Char} {piece : Piece}
    (h : read c rest = .ok piece) : piece.text ≠ [] := (read_takes h).text_ne_nil

theorem read_length_rest {c : Char} {rest : List Char} {piece : Piece}
    (h : read c rest = .ok piece) : piece.rest.length < (c :: rest).length := by
  have happend := congrArg List.length (read_append h)
  have htext := List.length_pos_iff.2 (read_text_ne_nil h)
  rw [List.length_append] at happend
  omega

end Piece
end TypeDrift
