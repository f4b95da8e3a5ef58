import TypeDrift.Proofs.Guarded.Piece
import TypeDrift.Token.Scan

/-! # Guarded scanning

The loop over the pieces of a text, from offset to offset.  The text of a piece is cut out between
the offset where it began and the one where its reader has stopped.  What is found are the tokens of
the text, or the fault in it (`scan_eq`): whatever the text, each piece leads to an offset between two
characters, and further on.
-/
namespace TypeDrift.Guarded

open Text

/-- The tokens from an offset on, which is at a place. -/
def scanFrom (source : List Char) : Nat → Position → Nat → Guarded Fault (List Token)
  | 0, _, _ => .error .endless
  | bound + 1, place, offset => do
    match ← peek source offset with
    | none => .ok [Token.endAt place]
    | some c =>
      let (kind, stop) ← withReason (⟨·, place⟩) (piece source (source.length + 1) c offset)
      let text ← slice source offset stop
      let tokens ← scanFrom source bound (place.after text) stop
      .ok (kind.toList.map (fun kind => Token.ofText place kind text) ++ tokens)

/-- The tokens of a script. -/
def scan (source : String) : Guarded Fault (List Token) :=
  scanFrom source.toList (source.toList.length + 1) .start 0

theorem At.length_le {source rest : List Char} {offset : Nat} (h : At source offset rest) :
    rest.length ≤ source.length := by
  obtain ⟨front, rfl, -⟩ := h
  rw [List.length_append]
  exact Nat.le_add_left _ _

theorem scanFrom_eq {source rest : List Char} {offset bound : Nat} (place : Position)
    (h : At source offset rest) (hbound : rest.length < bound) :
    scanFrom source bound place offset = plain (Token.scanFrom place rest) := by
  induction bound generalizing offset rest place with
  | zero => exact absurd hbound (Nat.not_lt_zero _)
  | succ bound ih =>
    rw [scanFrom, h.peek]
    cases rest with
    | nil =>
      rw [Token.scanFrom_nil]
      rfl
    | cons c rest =>
      have hfollows := piece_follows h (Nat.lt_succ_of_le h.length_le)
      simp only [List.head?_cons, ok_bind]
      cases hread : Piece.read c rest with
      | error cause =>
        rw [hread] at hfollows
        rw [Token.scanFrom_of_error place hread]
        cases hrun : piece source (source.length + 1) c offset with
        | ok _ => rw [hrun] at hfollows; cases hfollows
        | error failure =>
          rw [hrun] at hfollows
          cases hfollows
          rfl
      | ok found =>
        rw [hread] at hfollows
        rw [Token.scanFrom_of_ok place hread]
        cases hrun : piece source (source.length + 1) c offset with
        | error _ => rw [hrun] at hfollows; cases hfollows
        | ok answer =>
          rw [hrun] at hfollows
          cases hfollows with
          | @ok _ stop _ hat =>
            have happend := Piece.read_append hread
            have hlength := Piece.read_length_rest hread
            rw [← happend] at h
            have hmore := ih (place.after found.text) hat
              (Nat.lt_of_lt_of_le hlength (Nat.le_of_lt_succ hbound))
            simp only [withReason, ok_bind, h.slice hat, hmore]
            cases Token.scanFrom (place.after found.text) found.rest <;> rfl

/-- **Scanning stays within the text**, and ends. -/
theorem scan_eq (source : String) : scan source = plain (Token.scan source) :=
  scanFrom_eq .start (.start _) (Nat.lt_succ_self _)

end TypeDrift.Guarded
