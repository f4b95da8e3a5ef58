import TypeDrift.Text.Position

/-!
Quoted text. Inside quotes a backslash takes the character after it out of the reading: it neither
closes the text nor begins another escape. `Quoted.split` finds the closing quote and
`Quoted.decode` resolves the escapes of what lies before it. Raw strings have no escapes and close
with a mark of their own, which `Quoted.splitAtMark` finds.
-/
namespace TypeDrift.Quoted

/-- How a quoted text can break off. -/
inductive Unclosed where
  | inText
  | inEscape
deriving DecidableEq, Repr

/-- The text before the closing quote, and the text behind it. -/
def split (quote : Char) : List Char → Except Unclosed (List Char × List Char)
  | [] => .error .inText
  | '\\' :: [] => .error .inEscape
  | '\\' :: c :: rest =>
    match split quote rest with
    | .ok (body, left) => .ok ('\\' :: c :: body, left)
    | .error unclosed => .error unclosed
  | c :: rest =>
    if c = quote then .ok ([], rest)
    else
      match split quote rest with
      | .ok (body, left) => .ok (c :: body, left)
      | .error unclosed => .error unclosed

/-- The character that a backslash and `c` stand for. -/
def escape (c : Char) : Char :=
  if c = 'n' then '\n'
  else if c = 'r' then '\r'
  else if c = 't' then '\t'
  else if c = '0' then '\x00'
  else c

/-- A text with its escapes resolved. -/
def decode : List Char → List Char
  | '\\' :: c :: rest => escape c :: decode rest
  | c :: rest => c :: decode rest
  | [] => []

/-- The text before the first occurrence of a mark, and the text behind it. -/
def splitAtMark (mark : List Char) : List Char → Option (List Char × List Char)
  | [] => none
  | c :: rest =>
    if mark.isPrefixOf (c :: rest) then some ([], (c :: rest).drop mark.length)
    else (splitAtMark mark rest).map fun found => (c :: found.1, found.2)

theorem split_append {quote : Char} {cs body rest : List Char}
    (h : split quote cs = .ok (body, rest)) : body ++ quote :: rest = cs := by
  fun_induction split quote cs generalizing body rest with
  | case1 => cases h
  | case2 => cases h
  | case3 c tail inner left hinner ih => cases h; simp [ih hinner]
  | case4 => cases h
  | case5 => cases h; rfl
  | case6 c tail _ _ _ inner left hinner ih => cases h; simp [ih hinner]
  | case7 => cases h

theorem splitAtMark_append {mark cs body rest : List Char}
    (h : splitAtMark mark cs = some (body, rest)) : body ++ (mark ++ rest) = cs := by
  induction cs generalizing body rest with
  | nil => simp [splitAtMark] at h
  | cons c tail ih =>
    unfold splitAtMark at h
    split at h
    · next found =>
      cases h
      exact List.prefix_iff_eq_append.1 (List.isPrefixOf_iff_prefix.1 found)
    · obtain ⟨⟨inner, left⟩, hinner, heq⟩ := Option.map_eq_some_iff.1 h
      cases heq
      simp [ih hinner]

example : (split '"' "a\\\"b\"c".toList).toOption = some ("a\\\"b".toList, ['c']) := by
  decide +kernel

example : decode "a\\n\\\\n".toList = "a\n\\n".toList := by decide +kernel

end TypeDrift.Quoted
