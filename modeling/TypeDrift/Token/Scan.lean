import TypeDrift.Token.Piece

/-!
Scanning. The tokens of a text are its pieces that are no gaps, each at its place, and the end of
input behind them. Places are counted along the texts of the pieces; what a piece is does not depend
on where it stands.
-/
namespace TypeDrift

namespace Token

/-- The end of input, at a place. -/
def endAt (place : Position) : Token := ⟨.endOfInput, ⟨place, place⟩⟩

/-- The token of a text of some kind that begins at a place. A line break is held at its start and
written as a line feed, however it was written. -/
def ofText (place : Position) (kind : Kind) (text : List Char) : Token :=
  match kind with
  | .newline => ⟨⟨.newline, "\n"⟩, ⟨place, place⟩⟩
  | kind => ⟨⟨kind, String.ofList text⟩, ⟨place, place.last text⟩⟩

/-- The tokens of a piece at a place: one, or none for a gap. -/
def ofPiece (place : Position) (piece : Piece) : List Token :=
  piece.kind.toList.map fun kind => ofText place kind piece.text

theorem ofPiece_none (place : Position) (text rest : List Char) :
    ofPiece place ⟨none, text, rest⟩ = [] := rfl

theorem ofPiece_newline (place : Position) (text rest : List Char) :
    ofPiece place ⟨some .newline, text, rest⟩ = [⟨⟨.newline, "\n"⟩, ⟨place, place⟩⟩] := rfl

theorem ofPiece_token (place : Position) {kind : Kind} (h : kind ≠ .newline)
    (text rest : List Char) :
    ofPiece place ⟨some kind, text, rest⟩ =
      [⟨⟨kind, String.ofList text⟩, ⟨place, place.last text⟩⟩] := by
  cases kind <;> first | rfl | exact absurd rfl h

/-- The tokens of a text that begins at a place. -/
def scanFrom (place : Position) : List Char → Except Fault (List Token)
  | [] => .ok [endAt place]
  | c :: rest =>
    match _h : Piece.read c rest with
    | .error cause => .error ⟨cause, place⟩
    | .ok piece =>
      match scanFrom (place.after piece.text) piece.rest with
      | .error fault => .error fault
      | .ok tokens => .ok (ofPiece place piece ++ tokens)
termination_by cs => cs.length
decreasing_by exact Piece.read_length_rest _h

theorem scanFrom_nil (place : Position) : scanFrom place [] = .ok [endAt place] := by
  rw [scanFrom]

theorem scanFrom_of_error {c : Char} {rest : List Char} {cause : Cause} (place : Position)
    (h : Piece.read c rest = .error cause) :
    scanFrom place (c :: rest) = .error ⟨cause, place⟩ := by
  rw [scanFrom]
  split <;> simp_all

theorem scanFrom_of_ok {c : Char} {rest : List Char} {piece : Piece} (place : Position)
    (h : Piece.read c rest = .ok piece) :
    scanFrom place (c :: rest) =
      (scanFrom (place.after piece.text) piece.rest).map (ofPiece place piece ++ ·) := by
  rw [scanFrom]
  split
  · simp_all
  · next found hfound =>
    cases h.symm.trans hfound
    cases scanFrom (place.after piece.text) piece.rest <;> rfl

/-- Induction along the pieces of a text that can be scanned. -/
theorem scanFrom_induction {motive : Position → List Char → List Token → Prop}
    (nil : ∀ place, motive place [] [endAt place])
    (cons : ∀ place c rest piece tokens, Piece.read c rest = .ok piece →
      scanFrom (place.after piece.text) piece.rest = .ok tokens →
      motive (place.after piece.text) piece.rest tokens →
      motive place (c :: rest) (ofPiece place piece ++ tokens))
    {place : Position} {cs : List Char} {tokens : List Token}
    (h : scanFrom place cs = .ok tokens) : motive place cs tokens := by
  fun_induction scanFrom place cs generalizing tokens with
  | case1 place => cases h; exact nil place
  | case2 => cases h
  | case3 => cases h
  | case4 place c rest piece hpiece found hfound ih =>
    cases h
    exact cons place c rest piece found hpiece hfound (ih hfound)

/-- The tokens of a script, the last of which is the end of input. -/
def scan (source : String) : Except Fault (List Token) := scanFrom .start source.toList

end Token
end TypeDrift
