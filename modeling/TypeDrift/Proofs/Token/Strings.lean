import TypeDrift.Proofs.Token.Alone

/-! # Strings

What the contents of a string have to do with its text.

A string in quotes ends at the first quote that no backslash takes out of the reading, and its
contents are decoded step by step (`scan_quoted`): the text between the quotes is decoded by the
rules for its characters only if no line break in it has two of them.  A raw string ends at the
first occurrence of its mark, and its contents are the text before it, with line breaks of every
kind as they stand (`scan_rawString`).
-/
namespace TypeDrift

open Text

namespace Piece

theorem read_quote {quote : Char} (h : quote = '"' ∨ quote = '\'') (rest : List Char) :
    read quote rest = readString quote rest := readBy_iff.mp (.string h rfl)

/-- A string in quotes that is read has a body and the contents decoded from it. -/
theorem exists_body_of_readString {quote : Char} {rest : List Char} {piece : Piece}
    (hquote : quote = '"' ∨ quote = '\'') (h : readString quote rest = .ok piece) :
    ∃ body, Quoted.Encloses quote body ∧
      piece = ⟨some (.string (String.ofList (Quoted.decode (steps body)))),
        quote :: (body ++ [quote]), piece.rest⟩ := by
  have hslash : quote ≠ '\\' := by rcases hquote with rfl | rfl <;> decide
  unfold readString at h
  split at h
  · next body left hsplit =>
    cases h
    exact ⟨body, Quoted.encloses_of_split hslash hsplit, rfl⟩
  · cases h
  · cases h

/-- What begins with the letter of a raw string and is read as a string is a raw string. -/
theorem exists_rawQuotes_of_read {letter : Char} {rest text left : List Char} {contents : String}
    (hletter : letter = 'r' ∨ letter = 'R')
    (h : read letter rest = .ok ⟨some (.string contents), text, left⟩) :
    ∃ quotes : RawQuotes, text = quotes.text contents.toList ∧
      ¬quotes.mark <:+: contents.toList := by
  have hname : beginsName letter = true := by rcases hletter with rfl | rfl <;> decide
  have hplain := plain_of_class hname (by decide)
  cases readBy_iff.mpr h with
  | rawString _ hquote _ h =>
    obtain ⟨quotes, body, -, -, hbody, hpiece⟩ := exists_rawQuotes hletter hquote h
    cases hpiece
    exact ⟨quotes, by rw [String.toList_ofList], by rwa [String.toList_ofList]⟩
  | name _ _ _ h =>
    -- A name is a reserved word or an identifier.
    simp only [readName, kindOfName, Except.ok.injEq, Piece.mk.injEq, Option.some.injEq] at h
    have hkind := h.1
    split at hkind <;> cases hkind
  | blank hc => exact absurd hc hplain.blank
  | lineBreak hc => exact absurd hc hplain.lineBreak
  | comment hc => exact absurd hc hplain.comment
  | string hc => exact absurd hc hplain.quote
  | quotedName hc => exact absurd hc hplain.tick
  | numeral hc => exact absurd hc (by simp [isDigit_of_beginsName hname])
  | fraction hc => rcases hletter with rfl | rfl <;> cases hc
  | special hc => rcases hletter with rfl | rfl <;> cases hc
  | operator hc => simp [beginsOperator, hname] at hc

/-- Where the text begins like a raw string, the reader of raw strings reads it. -/
theorem read_opener (quotes : RawQuotes) (inner : List Char) :
    ∃ rest, quotes.opener ++ inner = quotes.letter :: rest ∧
      read quotes.letter rest = readRawString quotes.letter quotes.quote
        (List.replicate quotes.dashes '-' ++ quotes.opening :: inner) := by
  refine ⟨_, rfl, readBy_iff.mp (.rawString quotes.letter_eq quotes.quote_eq ?_ rfl)⟩
  simp

end Piece

namespace Token

/-- **Strings in quotes.**  The text of such a string is a body between two quotes, of which the
second is the first one that no backslash takes out of the reading.  The contents are what the
steps of the body are decoded to; the body itself is decoded to them where no carriage return
stands right before a line feed in it, and only there. -/
theorem scan_quoted {source : String} {tokens : List Token} (h : scan source = .ok tokens)
    {token : Token} (htoken : token ∈ tokens) {contents : String}
    (hkind : token.kind = .string contents) {quote : Char} (hquote : quote = '"' ∨ quote = '\'')
    (hhead : token.text.toList.head? = some quote) :
    ∃ body, token.text.toList = quote :: (body ++ [quote]) ∧ Quoted.Encloses quote body ∧
      Quoted.Decodes (steps body) contents.toList ∧
      (Quoted.Decodes body contents.toList ↔ ¬['\r', '\n'] <:+: body) := by
  have htrivia : token.isTrivia = false := by rw [Lexeme.isTrivia, hkind]; rfl
  obtain ⟨-, c, tail, htext, hread⟩ := readsAlone_of_scanFrom h token htoken htrivia
  obtain rfl : c = quote := by rwa [htext, List.head?_cons, Option.some.injEq] at hhead
  rw [Piece.read_quote hquote] at hread
  obtain ⟨body, hbody, hpiece⟩ := Piece.exists_body_of_readString hquote hread
  simp only [hkind, Piece.mk.injEq, Option.some.injEq, Kind.string.injEq] at hpiece
  obtain ⟨rfl, htail, -⟩ := hpiece
  rw [String.toList_ofList]
  exact ⟨body, htext.trans htail, hbody,
    Quoted.decodes_decode ((Quoted.opensEscape_steps body).trans hbody.closed),
    Quoted.decodes_steps_iff hbody.closed⟩

/-- A quote and a line break in single quotes, and escapes. -/
theorem scan_quoted_escapes :
    scan "'it\\'s\r\"so\"\\t\\q'" = .ok
        [⟨⟨.string "it's\r\"so\"\tq", "'it\\'s\r\"so\"\\t\\q'"⟩, ⟨⟨1, 1⟩, ⟨2, 9⟩⟩⟩,
          endAt ⟨2, 10⟩] ∧
      ∃ body, "'it\\'s\r\"so\"\\t\\q'".toList = '\'' :: (body ++ ['\'']) ∧
        Quoted.Encloses '\'' body ∧ Quoted.Decodes (steps body) "it's\r\"so\"\tq".toList ∧
        (Quoted.Decodes body "it's\r\"so\"\tq".toList ↔ ¬['\r', '\n'] <:+: body) := by
  have h : scan "'it\\'s\r\"so\"\\t\\q'" = .ok
      [⟨⟨.string "it's\r\"so\"\tq", "'it\\'s\r\"so\"\\t\\q'"⟩, ⟨⟨1, 1⟩, ⟨2, 9⟩⟩⟩,
        endAt ⟨2, 10⟩] := by decide +kernel
  exact ⟨h, scan_quoted h List.mem_cons_self rfl (.inr rfl) rfl⟩

/-- The line feed of a line break of two characters is missing in the contents. -/
theorem line_feed_missing :
    ¬∀ source tokens, scan source = .ok tokens → ∀ token ∈ tokens, ∀ contents quote,
      token.kind = .string contents → quote = '"' ∨ quote = '\'' →
      token.text.toList.head? = some quote →
      ∃ body, token.text.toList = quote :: (body ++ [quote]) ∧ Quoted.Encloses quote body ∧
        Quoted.Decodes body contents.toList := by
  intro hclaim
  have h : scan "\"a\r\nb\"" = .ok
      [⟨⟨.string "a\rb", "\"a\r\nb\""⟩, ⟨⟨1, 1⟩, ⟨2, 2⟩⟩⟩, endAt ⟨2, 3⟩] := by decide +kernel
  obtain ⟨body, htext, -, hdecodes⟩ :=
    hclaim _ _ h _ List.mem_cons_self "a\rb" '"' rfl (.inl rfl) rfl
  have hbody : ['a', '\r', '\n', 'b'] = body :=
    List.append_cancel_right (List.cons.inj htext).2
  have hcontents := Quoted.eq_decode_of_decodes hdecodes
  rw [← hbody] at hcontents
  revert hcontents
  decide

/-- **Raw strings.**  Where a text goes on with a raw string whose body does not have its mark in
it, the string is the next token, with the body as its contents, and the rest is scanned behind
it.  Every string that begins with the letter of a raw string is of this kind.  Where the mark
does not occur behind the beginning of a raw string, the fault is placed there. -/
theorem scan_rawString :
    (∀ (quotes : RawQuotes) (body : List Char), ¬quotes.mark <:+: body → ∀ place rest,
      scanFrom place (quotes.text body ++ rest) =
        (scanFrom (place.after (quotes.text body)) rest).map
          (⟨⟨.string (String.ofList body), String.ofList (quotes.text body)⟩,
            ⟨place, place.last (quotes.text body)⟩⟩ :: ·)) ∧
    (∀ source tokens, scan source = .ok tokens → ∀ token ∈ tokens, ∀ contents,
      token.kind = .string contents →
      (∃ letter ∈ token.text.toList.head?, letter = 'r' ∨ letter = 'R') →
      ∃ quotes : RawQuotes, token.text.toList = quotes.text contents.toList ∧
        ¬quotes.mark <:+: contents.toList) ∧
    ∀ (quotes : RawQuotes) (inner : List Char), ¬quotes.mark <:+: inner → ∀ place,
      scanFrom place (quotes.opener ++ inner) = .error ⟨.unterminatedRawString, place⟩ := by
  refine ⟨fun quotes body hbody place rest => ?_, ?_, fun quotes inner hinner place => ?_⟩
  · have hkind : Kind.string (String.ofList body) ≠ .newline := by
      rintro ⟨⟩
    obtain ⟨cs, hcs, hread⟩ := Piece.read_opener quotes (body ++ (quotes.mark ++ rest))
    rw [quotes.readRawString_body hbody] at hread
    have htext : quotes.text body ++ rest = quotes.opener ++ (body ++ (quotes.mark ++ rest)) := by
      simp [RawQuotes.text]
    rw [htext, hcs, scanFrom_of_ok place hread, ofPiece_token place hkind]
    rfl
  · rintro source tokens h token htoken contents hkind ⟨letter, hhead, hletter⟩
    have htrivia : token.isTrivia = false := by rw [Lexeme.isTrivia, hkind]; rfl
    obtain ⟨-, c, tail, htext, hread⟩ := readsAlone_of_scanFrom h token htoken htrivia
    obtain rfl : c = letter := by rwa [htext, List.head?_cons, Option.mem_some_iff] at hhead
    rw [hkind] at hread
    rw [htext]
    exact Piece.exists_rawQuotes_of_read hletter hread
  · obtain ⟨cs, hcs, hread⟩ := Piece.read_opener quotes inner
    rw [quotes.readRawString_unterminated hinner] at hread
    rw [hcs, scanFrom_of_error place hread]

/-- A mark with a dash, behind a bracket and a quote that are none. -/
theorem scan_rawString_dash :
    scan "R'-[]'\r\n]-'+1" =
        (scanFrom ⟨2, 4⟩ "+1".toList).map
          (⟨⟨.string "]'\r\n", "R'-[]'\r\n]-'"⟩, ⟨⟨1, 1⟩, ⟨2, 3⟩⟩⟩ :: ·) ∧
      (∃ quotes : RawQuotes, "R'-[]'\r\n]-'".toList = quotes.text "]'\r\n".toList ∧
        ¬quotes.mark <:+: "]'\r\n".toList) ∧
      scan "R'-[]'\r\n]'" = .error ⟨.unterminatedRawString, ⟨1, 1⟩⟩ := by
  let quotes : RawQuotes := ⟨'R', '\'', 1, '[', ']', .inr rfl, .inr rfl, .inr (.inl ⟨rfl, rfl⟩)⟩
  have h : scan "R'-[]'\r\n]-'" = .ok
      [⟨⟨.string "]'\r\n", "R'-[]'\r\n]-'"⟩, ⟨⟨1, 1⟩, ⟨2, 3⟩⟩⟩, endAt ⟨2, 4⟩] := by decide +kernel
  exact ⟨scan_rawString.1 quotes [']', '\'', '\r', '\n'] (by decide) .start ['+', '1'],
    scan_rawString.2.1 _ _ h _ List.mem_cons_self _ rfl ⟨'R', rfl, .inr rfl⟩,
    scan_rawString.2.2 quotes [']', '\'', '\r', '\n', ']', '\''] (by decide) .start⟩

end Token
end TypeDrift
