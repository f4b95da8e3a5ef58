import TypeDrift.Proofs.Token.Numeral
import TypeDrift.Proofs.Token.Quoted

/-! # Raw strings

A raw string stands between a letter, a quote, dashes and a bracket on the one side and the
bracket that goes with it, as many dashes and the quote on the other (`RawQuotes`).  The second
side is the mark that ends it.  Behind the first side a text is read up to the first mark
(`readRawString_body`), or refused if there is none (`readRawString_unterminated`); and no raw
string is read otherwise (`exists_rawQuotes`).
-/
namespace TypeDrift

open Text

/-- What a raw string stands between. -/
structure RawQuotes where
  letter : Char
  quote : Char
  dashes : Nat
  opening : Char
  closing : Char
  letter_eq : letter = 'r' ∨ letter = 'R'
  quote_eq : quote = '"' ∨ quote = '\''
  brackets : opening = '(' ∧ closing = ')' ∨ opening = '[' ∧ closing = ']' ∨
    opening = '{' ∧ closing = '}'

namespace RawQuotes

/-- What comes before the body. -/
def opener (quotes : RawQuotes) : List Char :=
  quotes.letter :: quotes.quote :: (List.replicate quotes.dashes '-' ++ [quotes.opening])

/-- What ends the body. -/
def mark (quotes : RawQuotes) : List Char :=
  quotes.closing :: (List.replicate quotes.dashes '-' ++ [quotes.quote])

/-- The raw string with a body. -/
def text (quotes : RawQuotes) (body : List Char) : List Char :=
  quotes.opener ++ (body ++ quotes.mark)

variable (quotes : RawQuotes)

theorem text_eq (body : List Char) :
    quotes.text body = quotes.letter :: quotes.quote ::
      (List.replicate quotes.dashes '-' ++ quotes.opening :: (body ++ quotes.mark)) := by
  simp [text, opener]

theorem mark_ne_nil : quotes.mark ≠ [] := List.cons_ne_nil _ _

theorem closingBracket?_opening :
    Piece.closingBracket? quotes.opening = some quotes.closing := by
  rcases quotes.brackets with ⟨ho, hc⟩ | ⟨ho, hc⟩ | ⟨ho, hc⟩ <;> rw [ho, hc] <;> rfl

theorem closing_notMem : quotes.closing ∉ List.replicate quotes.dashes '-' ++ [quotes.quote] := by
  have hdash : quotes.closing ≠ '-' := by
    rcases quotes.brackets with ⟨-, hc⟩ | ⟨-, hc⟩ | ⟨-, hc⟩ <;> rw [hc] <;> decide
  have hquote : quotes.closing ≠ quotes.quote := by
    rcases quotes.brackets with ⟨-, hc⟩ | ⟨-, hc⟩ | ⟨-, hc⟩ <;>
      rcases quotes.quote_eq with hq | hq <;> rw [hc, hq] <;> decide
  intro hmem
  rcases List.mem_append.mp hmem with hmem | hmem
  · exact hdash (List.eq_of_mem_replicate hmem)
  · exact hquote (List.mem_singleton.mp hmem)

/-- The dashes end where the bracket begins. -/
theorem takeWhile_dashes (inner : List Char) :
    (List.replicate quotes.dashes '-' ++ quotes.opening :: inner).takeWhile (· == '-') =
        List.replicate quotes.dashes '-' ∧
      (List.replicate quotes.dashes '-' ++ quotes.opening :: inner).dropWhile (· == '-') =
        quotes.opening :: inner := by
  refine takeWhile_eq_of_append (fun c hc => by simp [List.eq_of_mem_replicate hc]) fun c hc => ?_
  obtain rfl : quotes.opening = c := Option.some.inj hc
  rcases quotes.brackets with ⟨ho, -⟩ | ⟨ho, -⟩ | ⟨ho, -⟩ <;> rw [ho] <;> decide

/-- Behind its opener a raw string is what the search for its mark finds. -/
theorem readRawString_eq (inner : List Char) :
    Piece.readRawString quotes.letter quotes.quote
        (List.replicate quotes.dashes '-' ++ quotes.opening :: inner) =
      match Quoted.splitAtMark quotes.mark inner with
      | none => .error .unterminatedRawString
      | some (body, left) => .ok ⟨some (.string (String.ofList body)), quotes.text body, left⟩ := by
  obtain ⟨htake, hdrop⟩ := quotes.takeWhile_dashes inner
  have hopen : Piece.openBracket? (quotes.opening :: inner) =
      some (quotes.opening, quotes.closing, inner) := by
    rw [Piece.openBracket?, quotes.closingBracket?_opening]
    rfl
  simp only [Piece.readRawString, htake, hdrop, hopen, quotes.text_eq]
  rfl

theorem readRawString_body {body : List Char} (h : ¬quotes.mark <:+: body) (more : List Char) :
    Piece.readRawString quotes.letter quotes.quote
        (List.replicate quotes.dashes '-' ++ quotes.opening :: (body ++ (quotes.mark ++ more))) =
      .ok ⟨some (.string (String.ofList body)), quotes.text body, more⟩ := by
  rw [quotes.readRawString_eq, mark, Quoted.splitAtMark_of_not_infix quotes.closing_notMem h]

theorem readRawString_unterminated {inner : List Char} (h : ¬quotes.mark <:+: inner) :
    Piece.readRawString quotes.letter quotes.quote
        (List.replicate quotes.dashes '-' ++ quotes.opening :: inner) =
      .error .unterminatedRawString := by
  rw [quotes.readRawString_eq, (Quoted.splitAtMark_eq_none_iff quotes.mark_ne_nil).mpr h]

end RawQuotes

/-- A bracket that can open a raw string, with the one that closes it. -/
theorem Piece.brackets_of_closingBracket? {opening closing : Char}
    (h : closingBracket? opening = some closing) :
    opening = '(' ∧ closing = ')' ∨ opening = '[' ∧ closing = ']' ∨
      opening = '{' ∧ closing = '}' := by
  unfold closingBracket? at h
  split at h
  · exact .inl ⟨‹_›, (Option.some.inj h).symm⟩
  split at h
  · exact .inr (.inl ⟨‹_›, (Option.some.inj h).symm⟩)
  split at h
  · exact .inr (.inr ⟨‹_›, (Option.some.inj h).symm⟩)
  · cases h

/-- Every raw string that is read has its quotes, and a body in which its mark does not occur. -/
theorem Piece.exists_rawQuotes {letter quote : Char} {rest : List Char} {piece : Piece}
    (hletter : letter = 'r' ∨ letter = 'R') (hquote : quote = '"' ∨ quote = '\'')
    (h : readRawString letter quote rest = .ok piece) :
    ∃ (quotes : RawQuotes) (body : List Char), quotes.letter = letter ∧ quotes.quote = quote ∧
      ¬quotes.mark <:+: body ∧
      piece = ⟨some (.string (String.ofList body)), quotes.text body, piece.rest⟩ := by
  have hdashes : rest.takeWhile (· == '-') =
      List.replicate (rest.takeWhile (· == '-')).length '-' :=
    List.eq_replicate_of_mem fun c hc => by
      simpa using List.mem_takeWhile_imp (p := (· == '-')) hc
  have hrest := List.takeWhile_append_dropWhile (p := (· == '-')) (l := rest)
  cases hdrop : rest.dropWhile (· == '-') with
  | nil =>
    simp only [readRawString, hdrop, openBracket?] at h
    cases h
  | cons opening inner =>
    cases hclosing : closingBracket? opening with
    | none =>
      simp only [readRawString, hdrop, openBracket?, hclosing] at h
      cases h
    | some closing =>
      let quotes : RawQuotes := ⟨letter, quote, (rest.takeWhile (· == '-')).length, opening,
        closing, hletter, hquote, brackets_of_closingBracket? hclosing⟩
      have hread := quotes.readRawString_eq inner
      rw [← hdashes, ← hdrop, hrest, h] at hread
      cases hsplit : Quoted.splitAtMark quotes.mark inner with
      | none =>
        rw [hsplit] at hread
        cases hread
      | some found =>
        rw [hsplit] at hread
        cases hread
        exact ⟨quotes, found.1, rfl, rfl, Quoted.not_infix_of_splitAtMark quotes.mark_ne_nil hsplit,
          rfl⟩

end TypeDrift
