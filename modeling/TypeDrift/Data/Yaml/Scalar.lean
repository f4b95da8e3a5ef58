import TypeDrift.Numeral.Decimal
import TypeDrift.Text.Hex

/-!
Scalars of YAML documents. A text is written plainly where it can be, and otherwise between single
quotes, between double quotes, or as a literal block.

* A text with a line feed is a literal block.
* A text that would be read as null, as a truth value or as a number stands between single quotes.
* So does a text that would be read as something else than a text, for one of its characters.
* A text that none of these can hold stands between double quotes, which can hold all.

A written scalar is a list of lines. Each line has its break at its end.
-/
namespace TypeDrift.Data.Yaml

/-- The characters that end a line: line feed, carriage return, next line, and the separators of
lines and of paragraphs. -/
def isBreak (c : Char) : Bool :=
  c == '\n' || c == '\r' || c == '\u0085' || c == '\u2028' || c == '\u2029'

/-- The characters that can be written as they are: neither control characters but the line feed,
nor byte-order marks, nor the last two of the basic plane. -/
def isPrintable (c : Char) : Bool :=
  c == '\n' || (0x20 ≤ c.toNat && c.toNat ≤ 0x7e) ||
    (0xa0 ≤ c.toNat && c.toNat != 0xfeff && c.toNat != 0xfffe && c.toNat != 0xffff)

/-! ### Texts that would be read as other values -/

/-- Null and the truth values, in any mixture of cases. -/
def isWord (text : String) : Bool := ["", "~", "null", "true", "false"].contains text.toLower

/-- The digit that a character is, to a base of at most sixteen. -/
def digit? (base : Nat) (c : Char) : Option Nat :=
  let value :=
    if c.isDigit then c.toNat - '0'.toNat
    else if 'a' ≤ c ∧ c ≤ 'f' then c.toNat - 'a'.toNat + 10
    else if 'A' ≤ c ∧ c ≤ 'F' then c.toNat - 'A'.toNat + 10
    else base
  if value < base then some value else none

/-- The number that digits write. -/
def number? (base : Nat) (digits : List Char) : Option Nat :=
  if digits.isEmpty then none
  else digits.foldlM (fun value c => (digit? base c).map fun digit => value * base + digit) 0

/-- Whole numbers to a base other than ten, of at most 128 bits. -/
def isBased (sign : Option Char) : List Char → Bool
  | '0' :: mark :: digits =>
    let base := if mark = 'x' then 16 else if mark = 'o' then 8 else if mark = 'b' then 2 else 0
    match number? base digits with
    | some value => if sign = some '-' then value ≤ Nat.pow 2 127 else value < Nat.pow 2 128
    | none => false
  | _ => false

/-- Decimal digits behind a zero. They are no number, but are taken for one by some readers. -/
def isZeroLed : List Char → Bool
  | '0' :: digits => !digits.isEmpty && digits.all Char.isDigit
  | _ => false

/-- Decimal numbers in the range of doubles. -/
def isDecimal (cs : List Char) : Bool :=
  match Decimal.read cs with
  | some (decimal, []) =>
    !(decimal.whole ++ decimal.fraction.getD []).isEmpty && decimal.isFinite
  | _ => false

/-- The names of infinity. -/
def infinities : List String := [".inf", ".Inf", ".INF"]

/-- The names of what is no number. -/
def notNumbers : List String := [".nan", ".NaN", ".NAN"]

/-- Numbers. -/
def isNumber (text : String) : Bool :=
  let (sign, unsigned) := Exponent.takeSign text.toList
  isBased sign unsigned || isZeroLed unsigned || isDecimal unsigned ||
    infinities.contains (String.ofList unsigned) || notNumbers.contains text

/-! ### Styles -/

/-- The characters that a plain text cannot begin with. -/
def indicators : List Char := "#,[]\x7b\x7d&*!|>'\"%@`".toList

/-- Whether a blank or the end comes next. -/
def endsWord : List Char → Bool
  | [] => true
  | c :: _ => c == ' '

/-- Texts that begin like something else than a text: with an indicator, with a mark of an entry,
or with a mark between documents. -/
def beginsOtherwise : List Char → Bool
  | [] => false
  | c :: rest =>
    indicators.contains c || ((c == '?' || c == ':' || c == '-') && endsWord rest) ||
      ['-', '-', '-'].isPrefixOf (c :: rest) || ['.', '.', '.'].isPrefixOf (c :: rest)

/-- Texts in which a key would end, or a comment begin. -/
def breaksOff : List Char → Bool
  | [] => false
  | c :: rest =>
    (c == ':' && endsWord rest) || (c == ' ' && rest.head? == some '#') || breaksOff rest

/-- Whether a character of one kind comes right before one of another kind. -/
def hasPair (first second : Char → Bool) : List Char → Bool
  | c :: d :: rest => (first c && second d) || hasPair first second (d :: rest)
  | _ => false

/-- A blank. -/
def isSpace (c : Char) : Bool := c == ' '

/-- Texts that can stand on lines as they are: all characters can be written, and no line but the
last one ends with a blank. -/
def isWritable (cs : List Char) : Bool := cs.all isPrintable && !hasPair isSpace isBreak cs

/-- Texts that can be written plainly. -/
def canBePlain (cs : List Char) : Bool :=
  isWritable cs && !cs.any isBreak && cs.head? != some ' ' && cs.getLast? != some ' ' &&
    !beginsOtherwise cs && !breaksOff cs

/-- Texts that can stand between single quotes: none of their lines but the first one begins with a
blank. -/
def canBeSingle (cs : List Char) : Bool := isWritable cs && !hasPair isBreak isSpace cs

/-- Texts that can be literal blocks. -/
def canBeLiteral (cs : List Char) : Bool := isWritable cs && cs.getLast? != some ' '

/-- The ways to write a text. -/
inductive Style where
  | plain
  | single
  | double
  | literal
deriving DecidableEq, Repr

/-- The way a text is written. -/
def Style.of (text : String) : Style :=
  let cs := text.toList
  if cs.contains '\n' then if canBeLiteral cs then literal else double
  else if !isWord text && !isNumber text && canBePlain cs then plain
  else if canBeSingle cs then single
  else double

/-! ### Lines -/

/-- The escapes of one letter. -/
def shortEscapes : List (Nat × Char) :=
  [(0x00, '0'), (0x07, 'a'), (0x08, 'b'), (0x09, 't'), (0x0a, 'n'), (0x0b, 'v'), (0x0c, 'f'),
    (0x0d, 'r'), (0x1b, 'e'), (0x22, '"'), (0x5c, '\\'), (0x85, 'N'), (0x2028, 'L'),
    (0x2029, 'P')]

/-- A character between double quotes. -/
def escaped (c : Char) : List Char :=
  match shortEscapes.lookup c.toNat with
  | some letter => ['\\', letter]
  | none =>
    if isPrintable c then [c]
    else if c.toNat < 0x100 then '\\' :: 'x' :: Text.hexDigits 'A' 2 c.toNat
    else if c.toNat < 0x10000 then '\\' :: 'u' :: Text.hexDigits 'A' 4 c.toNat
    else '\\' :: 'U' :: Text.hexDigits 'A' 8 c.toNat

/-- A text cut behind each of its breaks. -/
def cutLines : List Char → List (List Char)
  | [] => []
  | c :: rest =>
    if isBreak c then [c] :: cutLines rest
    else
      match cutLines rest with
      | [] => [[c]]
      | line :: lines => (c :: line) :: lines

/-- What is said of the end of a literal block: whether its last break belongs to the text, and
whether more breaks do. -/
def endHint (cs : List Char) : List Char :=
  match cs.reverse with
  | [] => ['-']
  | last :: before =>
    if !isBreak last then ['-']
    else if before.head?.all isBreak then ['+']
    else []

/-- What is said of the beginning of a literal block whose first line does not show how far it is
set in. -/
def startHint : List Char → List Char
  | [] => []
  | c :: _ => if c == ' ' || isBreak c then ['2'] else []

/-- A text as a literal block. -/
def literalBlock (cs : List Char) : List (List Char) :=
  let ending := if (cs.getLast?.map isBreak).getD false then [] else ['\n']
  ('|' :: (startHint cs ++ endHint cs ++ ['\n'])) :: cutLines (cs ++ ending)

/-- The lines of a text in a style. -/
def Style.lines (style : Style) (cs : List Char) : List (List Char) :=
  match style with
  | plain => cutLines (cs ++ ['\n'])
  | single =>
    cutLines ('\'' :: (cs.flatMap fun c => if c == '\'' then ['\'', '\''] else [c]) ++
      ['\'', '\n'])
  | double => cutLines ('"' :: cs.flatMap escaped ++ ['"', '\n'])
  | literal => literalBlock cs

/-- The lines of a text. -/
def textLines (text : String) : List String :=
  ((Style.of text).lines text.toList).map String.ofList

end TypeDrift.Data.Yaml
