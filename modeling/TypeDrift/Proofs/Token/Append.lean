import TypeDrift.Proofs.Token.Layout

/-! # One text behind another

A text, a line feed and another text are scanned as the one text and the other (`scan_append`): a
piece at the end of the first text would go on only if the text were cut within a token, and a line
feed ends every piece but those that have ended already.  The one way to cut within a line break is
to end with a carriage return.

What the second text is scanned as does not depend on where it stands, but for its places, which are
that many lines further down (`scanFrom_down`).
-/
namespace TypeDrift

open Text

/-- The same places, so many lines further down. -/
def Span.down (lines : Nat) (span : Span) : Span := ⟨span.start.down lines, span.stop.down lines⟩

/-- The same token, so many lines further down. -/
def Token.down (lines : Nat) (token : Token) : Token := { token with span := token.span.down lines }

/-- The same fault, so many lines further down. -/
def Fault.down (lines : Nat) (fault : Fault) : Fault := { fault with place := fault.place.down lines }

namespace Token

/-- What was scanned, so many lines further down. -/
def scannedDown (lines : Nat) : Except Fault (List Token) → Except Fault (List Token)
  | .ok tokens => .ok (tokens.map (down lines))
  | .error fault => .error (fault.down lines)

theorem ofPiece_down (lines : Nat) (place : Position) (piece : Piece) :
    ofPiece (place.down lines) piece = (ofPiece place piece).map (down lines) := by
  obtain ⟨_ | kind, text, rest⟩ := piece
  · rfl
  · by_cases hkind : kind = .newline
    · subst hkind
      rfl
    · rw [ofPiece_token _ hkind, ofPiece_token _ hkind, Position.last_down]
      rfl

/-- **What a text is scanned as does not depend on its place.** -/
theorem scanFrom_down (lines : Nat) (place : Position) (cs : List Char) :
    scanFrom (place.down lines) cs = scannedDown lines (scanFrom place cs) := by
  fun_induction scanFrom place cs with
  | case1 place =>
    rw [scanFrom_nil]
    rfl
  | case2 place c rest cause hpiece =>
    rw [scanFrom_of_error _ hpiece]
    rfl
  | case3 place c rest piece hpiece fault hfault ih =>
    rw [scanFrom_of_ok _ hpiece, Position.after_down, ih, hfault]
    rfl
  | case4 place c rest piece hpiece tokens htokens ih =>
    rw [scanFrom_of_ok _ hpiece, Position.after_down, ih, htokens, ofPiece_down]
    simp [scannedDown, Except.map]

/-- No piece is the end of input. -/
theorem kind_ne_of_mem_ofPiece {place : Position} {c : Char} {rest : List Char} {piece : Piece}
    {token : Token} (hpiece : Piece.read c rest = .ok piece) (h : token ∈ ofPiece place piece) :
    token.kind ≠ .endOfInput := by
  cases Piece.read_shape hpiece with
  | blank | comment => cases h
  | newline =>
    obtain rfl := List.mem_singleton.mp h
    exact nofun
  | token hsolid =>
    rw [ofPiece_token _ hsolid.fits.1.1] at h
    obtain rfl := List.mem_singleton.mp h
    exact hsolid.fits.1.2

/-- The end of input comes last, behind the text, and nowhere else. -/
theorem scanFrom_row {place : Position} {cs : List Char} {tokens : List Token}
    (h : scanFrom place cs = .ok tokens) :
    ∃ row, tokens = row ++ [endAt (place.after cs)] ∧
      ∀ token ∈ row, token.kind ≠ .endOfInput := by
  refine scanFrom_induction (motive := fun place cs tokens =>
    ∃ row, tokens = row ++ [endAt (place.after cs)] ∧
      ∀ token ∈ row, token.kind ≠ .endOfInput) ?_ ?_ h
  · exact fun place => ⟨[], rfl, nofun⟩
  · rintro place c rest piece tokens hpiece _ ⟨row, htokens, hkinds⟩
    refine ⟨ofPiece place piece ++ row, ?_, List.forall_mem_append.mpr
      ⟨fun token hmem => kind_ne_of_mem_ofPiece hpiece hmem, hkinds⟩⟩
    rw [htokens, ← Piece.read_append hpiece,
      Position.after_append _ (Piece.read_shape hpiece).splits, List.append_assoc]

/-- A text that can be scanned, with a line feed and more behind it. -/
theorem scanFrom_append {place : Position} {cs : List Char} {tokens : List Token}
    (more : List Char) (h : scanFrom place cs = .ok tokens) (hsplit : Splits cs ('\n' :: more)) :
    scanFrom place (cs ++ '\n' :: more) =
      (scanFrom (place.after cs) ('\n' :: more)).map (tokens.dropLast ++ ·) := by
  refine scanFrom_induction (motive := fun place cs tokens => Splits cs ('\n' :: more) →
    scanFrom place (cs ++ '\n' :: more) =
      (scanFrom (place.after cs) ('\n' :: more)).map (tokens.dropLast ++ ·)) ?_ ?_ h hsplit
  · intro place _
    have hafter : place.after [] = place := rfl
    rw [hafter, List.nil_append]
    cases scanFrom place ('\n' :: more) <;> rfl
  · rintro place c rest piece tokens hpiece htokens ih hsplit
    have hshape := Piece.read_shape hpiece
    have happend := Piece.read_append hpiece
    rw [← happend] at hsplit
    -- A line feed goes into no piece; it could only complete a line break at its end.
    have hends : Splits piece.text (piece.rest ++ '\n' :: more) := by
      by_cases hrest : piece.rest = []
      · rw [hrest, List.append_nil] at hsplit
        rwa [hrest]
      · exact hshape.splits.append_right hrest _
    have hstop : Piece.isStop '\n' = true := rfl
    have hread := Piece.read_append_stop hstop more hpiece (fun _ => rfl) hends
    have hplace : place.after (c :: rest) = (place.after piece.text).after piece.rest := by
      rw [← happend, Position.after_append _ hshape.splits]
    -- The end of input that is dropped is not that of this piece.
    have hlast : tokens ≠ [] := by
      obtain ⟨row, rfl, -⟩ := scanFrom_row htokens
      exact List.append_ne_nil_of_right_ne_nil row (List.cons_ne_nil _ _)
    rw [List.dropLast_append_of_ne_nil hlast, hplace]
    refine (scanFrom_of_ok place hread).trans
      ((congrArg (Except.map _) (ih hsplit.of_append_left)).trans ?_)
    cases scanFrom ((place.after piece.text).after piece.rest) ('\n' :: more) with
    | error fault => rfl
    | ok later => exact congrArg Except.ok (List.append_assoc _ _ _).symm

/-- The tokens of a text, without the end of input. -/
theorem scan_row {source : String} {tokens : List Token} (h : scan source = .ok tokens) :
    ∃ row, tokens = row ++ [endAt (.behind source.toList)] ∧
      ∀ token ∈ row, token.kind ≠ .endOfInput := by
  have hplace : Position.start.after source.toList = .behind source.toList :=
    Position.after_start _
  exact hplace ▸ scanFrom_row h

/-- The token that the end of a text becomes where a line feed comes behind it. -/
def newlineAt (place : Position) : Token := ⟨⟨.newline, "\n"⟩, ⟨place, place⟩⟩

/-- **A text, a line feed and another text** are scanned as the one text and the other, that many
lines further down.  The end of the one text becomes a line break. -/
theorem scan_append_newline {a b : String} {row : List Token}
    (h : scan a = .ok (row ++ [endAt (.behind a.toList)]))
    (hend : a.toList.getLast? ≠ some '\r') :
    scan (a ++ "\n" ++ b) =
      (scannedDown (lineBreaks a.toList + 1) (scan b)).map
        (row ++ newlineAt (.behind a.toList) :: ·) := by
  have hsplit : Splits a.toList ('\n' :: b.toList) := fun hbad => hend hbad.1
  have hplace : Position.start.after a.toList = .behind a.toList := Position.after_start _
  have hscan := scanFrom_append b.toList h hsplit
  rw [hplace, List.dropLast_concat] at hscan
  have hbreak : Piece.read '\n' b.toList = .ok ⟨some .newline, ['\n'], b.toList⟩ := by
    cases b.toList <;> rfl
  have htext : (a ++ "\n" ++ b).toList = a.toList ++ '\n' :: b.toList := by simp
  have hdown : (Position.behind a.toList).after ['\n'] =
      Position.start.down (lineBreaks a.toList + 1) := by
    rw [Position.after_singleton]
    exact congrArg (Position.mk · 1) (Nat.add_comm _ _)
  have hb : scanFrom .start b.toList = scan b := rfl
  rw [scan, htext, hscan, scanFrom_of_ok _ hbreak, hdown, scanFrom_down, hb]
  cases scan b <;> rfl

end Token
end TypeDrift
