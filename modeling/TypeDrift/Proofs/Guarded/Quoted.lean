import TypeDrift.Proofs.Guarded.Text
import TypeDrift.Proofs.Token.Piece

/-! # Guarded reading of quoted text

Strings, names in backticks and raw strings once more, now from offset to offset.  `Follows` compares
a guarded reader with the reader on lists.

A loop over quoted text goes step by step, where the reader on lists goes character by character, and
it keeps what it has seen so far and not what a list still holds.  So the comparison says what the
reader on lists makes of the rest (`stringFrom_follows`), and a step of two characters is one that
neither closes nor escapes (`Quoted.split_firstStep`).
-/
namespace TypeDrift

open Text

/-! ## Quoted text, step by step -/

namespace Quoted

theorem split_cons_of_ne {quote c : Char} (rest : List Char) (hescape : c ≠ '\\')
    (hquote : c ≠ quote) :
    split quote (c :: rest) =
      (split quote rest).map fun parts => (c :: parts.1, parts.2) := by
  rw [split_cons hescape, if_neg hquote]
  cases split quote rest <;> rfl

theorem split_escape (quote c : Char) (rest : List Char) :
    split quote ('\\' :: c :: rest) =
      (split quote rest).map fun parts => ('\\' :: c :: parts.1, parts.2) := by
  rw [split]
  cases split quote rest <;> rfl

/-- A step that neither closes nor escapes. -/
theorem split_firstStep {quote c : Char} (rest : List Char) (hescape : c ≠ '\\')
    (hquote : c ≠ quote) (hline : quote ≠ '\n') :
    split quote (c :: rest) = (split quote (behindStep (c :: rest))).map fun parts =>
      (firstStep (c :: rest) ++ parts.1, parts.2) := by
  rw [split_cons_of_ne rest hescape hquote]
  rcases step_cases c rest with ⟨tail, rfl, rfl, hfirst, hbehind⟩ | ⟨-, hfirst, hbehind⟩
  · rw [hfirst, hbehind, split_cons_of_ne tail (by decide) hline.symm]
    cases split quote tail <;> rfl
  · rw [hfirst, hbehind]
    rfl

/-- A backslash and the step that it takes out of the reading. -/
theorem split_escape_firstStep {quote : Char} (c : Char) (rest : List Char) (hline : quote ≠ '\n') :
    split quote ('\\' :: c :: rest) = (split quote (behindStep (c :: rest))).map fun parts =>
      ('\\' :: (firstStep (c :: rest) ++ parts.1), parts.2) := by
  rw [split_escape]
  rcases step_cases c rest with ⟨tail, rfl, rfl, hfirst, hbehind⟩ | ⟨-, hfirst, hbehind⟩
  · rw [hfirst, hbehind, split_cons_of_ne tail (by decide) hline.symm]
    cases split quote tail <;> rfl
  · rw [hfirst, hbehind]
    rfl

/-- A mark that does not begin with a line feed is not found at the first step unless it is there. -/
theorem splitAtMark_firstStep {mark : List Char} {c : Char} (rest : List Char)
    (hmark : mark.isPrefixOf (c :: rest) = false)
    (hline : ∀ rest, mark.isPrefixOf ('\n' :: rest) = false) :
    splitAtMark mark (c :: rest) = (splitAtMark mark (behindStep (c :: rest))).map fun parts =>
      (firstStep (c :: rest) ++ parts.1, parts.2) := by
  rw [splitAtMark, hmark]
  rcases step_cases c rest with ⟨tail, rfl, rfl, hfirst, hbehind⟩ | ⟨-, hfirst, hbehind⟩
  · rw [hfirst, hbehind, splitAtMark, hline]
    cases splitAtMark mark tail <;> rfl
  · rw [hfirst, hbehind]
    rfl

end Quoted

namespace Guarded

/-! ## The readers -/

section Readers
variable (source : List Char)

/-- A string behind its opening quote, and the contents that have been read of it. -/
def stringFrom (quote : Char) : Nat → List Char → Nat → Guarded Cause (Option Kind × Nat)
  | 0, _, _ => .error .endless
  | bound + 1, contents, offset => do
    match ← peek source offset with
    | none => .error (.refused .unterminatedString)
    | some c =>
      if c = quote then
        let stop ← advance source offset
        .ok (some (.string (String.ofList contents)), stop)
      else if c = '\\' then
        let offset ← advance source offset
        match ← peek source offset with
        | none => .error (.refused .unterminatedEscape)
        | some escaped =>
          stringFrom quote bound (contents ++ [Quoted.escape escaped]) (← advance source offset)
      else stringFrom quote bound (contents ++ [c]) (← advance source offset)

/-- A string. -/
def string (bound start : Nat) : Guarded Cause (Option Kind × Nat) := do
  let quote := (← peek source start).getD '"'
  stringFrom source quote bound [] (← advance source start)

/-- A name in backticks, behind the first one. -/
def quotedNameFrom : Nat → Nat → Guarded Cause (Option Kind × Nat)
  | 0, _ => .error .endless
  | bound + 1, offset => do
    match ← peek source offset with
    | none => .error (.refused .unterminatedName)
    | some c =>
      if c = '`' then
        let stop ← advance source offset
        .ok (some .identifier, stop)
      else if c = '\\' then
        let offset ← advance source offset
        quotedNameFrom bound (← advance source offset)
      else quotedNameFrom bound (← advance source offset)

/-- A name in backticks. -/
def quotedName (bound start : Nat) : Guarded Cause (Option Kind × Nat) := do
  quotedNameFrom source bound (← advance source start)

/-- The contents of a raw string, and the mark that closes it. -/
def rawStringFrom (mark : List Char) (contents : Nat) :
    Nat → Nat → Guarded Cause (Option Kind × Nat)
  | 0, _ => .error .endless
  | bound + 1, offset => do
    match ← peek source offset with
    | none => .error (.refused .unterminatedRawString)
    | some _ =>
      let rest ← ahead source offset
      if mark.isPrefixOf rest then
        let text ← slice source contents offset
        let stop ← advanceTimes source mark.length offset
        .ok (some (.string (String.ofList text)), stop)
      else rawStringFrom mark contents bound (← advance source offset)

/-- A raw string. -/
def rawString (bound start : Nat) : Guarded Cause (Option Kind × Nat) := do
  let offset ← advance source start
  let quote := (← peek source offset).getD '"'
  let (dashes, offset) ← passWhile source (· == '-') bound (← advance source offset)
  match (← peek source offset).bind Piece.closingBracket? with
  | none => .error (.refused .malformedRawString)
  | some closing =>
    let contents ← advance source offset
    rawStringFrom source (closing :: (dashes ++ [quote])) contents bound contents

end Readers

/-! ## Each follows its counterpart -/

/-- What a piece is and what it leaves. -/
def ending (piece : Piece) : Option Kind × List Char := (piece.kind, piece.rest)

/-- What the text behind a quote makes of the contents that have been read. -/
def stringOf (contents : List Char) :
    Except Quoted.Unclosed (List Char × List Char) → Except Cause (Option Kind × List Char)
  | .ok (body, left) =>
    .ok (some (.string (String.ofList (contents ++ Quoted.decode (steps body)))), left)
  | .error .inEscape => .error .unterminatedEscape
  | .error .inText => .error .unterminatedString

/-- What the text behind a backtick makes a name. -/
def nameOf :
    Except Quoted.Unclosed (List Char × List Char) → Except Cause (Option Kind × List Char)
  | .ok (_, left) => .ok (some .identifier, left)
  | .error _ => .error .unterminatedName

variable {source rest : List Char} {offset bound : Nat}

theorem stringOf_firstStep {quote c : Char} (contents rest : List Char) (hescape : c ≠ '\\') :
    stringOf contents ((Quoted.split quote (behindStep (c :: rest))).map fun parts =>
        (firstStep (c :: rest) ++ parts.1, parts.2)) =
      stringOf (contents ++ [c]) (Quoted.split quote (behindStep (c :: rest))) := by
  cases hsplit : Quoted.split quote (behindStep (c :: rest)) with
  | error unclosed => cases unclosed <;> rfl
  | ok parts =>
    have hsteps := steps_firstStep_append c rest (Quoted.split_append hsplit).symm
    have hdecode : Quoted.decode (c :: steps parts.1) = c :: Quoted.decode (steps parts.1) :=
      Quoted.decode_cons fun _ _ hc _ => hescape hc
    simp only [Except.map, stringOf, hsteps, hdecode, List.append_assoc, List.singleton_append]

theorem stringOf_escape {quote c : Char} (contents rest : List Char) :
    stringOf contents ((Quoted.split quote (behindStep (c :: rest))).map fun parts =>
        ('\\' :: (firstStep (c :: rest) ++ parts.1), parts.2)) =
      stringOf (contents ++ [Quoted.escape c]) (Quoted.split quote (behindStep (c :: rest))) := by
  cases hsplit : Quoted.split quote (behindStep (c :: rest)) with
  | error unclosed => cases unclosed <;> rfl
  | ok parts =>
    have hsteps := steps_firstStep_append c rest (Quoted.split_append hsplit).symm
    have hescape : steps ('\\' :: (firstStep (c :: rest) ++ parts.1)) =
        '\\' :: c :: steps parts.1 := by
      rw [steps_cons (fun h => absurd (Option.some.inj h.1) (by decide)), hsteps]
    simp only [Except.map, stringOf, hescape, Quoted.decode, List.append_assoc,
      List.singleton_append]

theorem nameOf_map (x : Except Quoted.Unclosed (List Char × List Char))
    (f : List Char → List Char) : nameOf (x.map fun parts => (f parts.1, parts.2)) = nameOf x := by
  cases x <;> rfl

theorem stringFrom_follows {quote : Char} (hescape : quote ≠ '\\') (hbreak : isBreak quote = false)
    (contents : List Char) (h : At source offset rest) (hbound : rest.length < bound) :
    Follows source (stringFrom source quote bound contents offset)
      (stringOf contents (Quoted.split quote rest)) := by
  have hline : quote ≠ '\n' := by
    rintro rfl
    cases hbreak
  have hreturn : quote ≠ '\r' := by
    rintro rfl
    cases hbreak
  induction bound generalizing offset rest contents with
  | zero => exact absurd hbound (Nat.not_lt_zero _)
  | succ bound ih =>
    rw [stringFrom]
    refine .step h.peek ?_
    cases rest with
    | nil => exact .refused _
    | cons c rest =>
      simp only [List.head?_cons]
      have hshorter := Nat.lt_of_lt_of_le (length_behindStep_lt c rest)
        (Nat.le_of_lt_succ hbound)
      by_cases hclose : c = quote
      · subst hclose
        obtain ⟨stop, hstop, hat⟩ := h.advance_of_ne hreturn
        rw [if_pos rfl, Quoted.split_cons hescape, if_pos rfl]
        refine .step hstop ?_
        have hempty : contents ++ Quoted.decode (steps []) = contents := List.append_nil _
        rw [stringOf, hempty]
        exact .ok _ hat
      rw [if_neg hclose]
      by_cases hbackslash : c = '\\'
      · subst hbackslash
        obtain ⟨next, hnext, hat⟩ := h.advance_of_ne (ε := Cause) (by decide)
        rw [if_pos rfl]
        refine .step hnext (.step hat.peek ?_)
        cases rest with
        | nil => exact .refused _
        | cons escaped rest =>
          obtain ⟨behind, hbehind, hat'⟩ := hat.advance
          rw [Quoted.split_escape_firstStep escaped rest hline, stringOf_escape]
          refine .step hbehind (ih _ hat' ?_)
          have hlength := length_behindStep_lt escaped rest
          simp only [List.length_cons] at hbound hlength ⊢
          omega
      · obtain ⟨next, hnext, hat⟩ := h.advance
        rw [if_neg hbackslash, Quoted.split_firstStep rest hbackslash hclose hline,
          stringOf_firstStep contents rest hbackslash]
        exact .step hnext (ih _ hat hshorter)

theorem quotedNameFrom_follows (h : At source offset rest) (hbound : rest.length < bound) :
    Follows source (quotedNameFrom source bound offset) (nameOf (Quoted.split '`' rest)) := by
  induction bound generalizing offset rest with
  | zero => exact absurd hbound (Nat.not_lt_zero _)
  | succ bound ih =>
    rw [quotedNameFrom]
    refine .step h.peek ?_
    cases rest with
    | nil => exact .refused _
    | cons c rest =>
      simp only [List.head?_cons]
      have hshorter := Nat.lt_of_lt_of_le (length_behindStep_lt c rest)
        (Nat.le_of_lt_succ hbound)
      by_cases hclose : c = '`'
      · subst hclose
        obtain ⟨stop, hstop, hat⟩ := h.advance_of_ne (by decide)
        rw [if_pos rfl]
        exact .step hstop (.ok _ hat)
      rw [if_neg hclose]
      by_cases hbackslash : c = '\\'
      · subst hbackslash
        obtain ⟨next, hnext, hat⟩ := h.advance_of_ne (ε := Cause) (by decide)
        rw [if_pos rfl]
        refine .step hnext ?_
        cases rest with
        | nil =>
          -- The second step leads nowhere, and the loop finds the end.
          have hend := ih hat (Nat.lt_of_succ_lt_succ hbound)
          exact .step hat.advance_nil hend
        | cons escaped rest =>
          obtain ⟨behind, hbehind, hat'⟩ := hat.advance
          rw [Quoted.split_escape_firstStep escaped rest (by decide),
            nameOf_map _ fun body => '\\' :: (firstStep (escaped :: rest) ++ body)]
          refine .step hbehind (ih hat' ?_)
          have hlength := length_behindStep_lt escaped rest
          simp only [List.length_cons] at hbound hlength ⊢
          omega
      · obtain ⟨next, hnext, hat⟩ := h.advance
        rw [if_neg hbackslash, Quoted.split_firstStep rest hbackslash hclose (by decide),
          nameOf_map _ fun body => firstStep (c :: rest) ++ body]
        exact .step hnext (ih hat hshorter)

theorem string_follows {quote : Char} (hquote : quote = '"' ∨ quote = '\'')
    (h : At source offset (quote :: rest)) (hbound : rest.length < bound) :
    Follows source (string source bound offset) ((Piece.readString quote rest).map ending) := by
  have hescape : quote ≠ '\\' := by rcases hquote with rfl | rfl <;> decide
  have hbreak : isBreak quote = false := by rcases hquote with rfl | rfl <;> decide
  have hreturn : quote ≠ '\r' := by rcases hquote with rfl | rfl <;> decide
  obtain ⟨next, hnext, hat⟩ := h.advance_of_ne hreturn
  have hread : (Piece.readString quote rest).map ending =
      stringOf [] (Quoted.split quote rest) := by
    rw [Piece.readString]
    split
    · next hsplit => rw [hsplit]; rfl
    · next hsplit => rw [hsplit]; rfl
    · next hsplit => rw [hsplit]; rfl
  rw [hread]
  exact .step h.peek (.step hnext (stringFrom_follows hescape hbreak [] hat hbound))

theorem quotedName_follows (h : At source offset ('`' :: rest)) (hbound : rest.length < bound) :
    Follows source (quotedName source bound offset) ((Piece.readQuotedName rest).map ending) := by
  obtain ⟨next, hnext, hat⟩ := h.advance_of_ne (by decide)
  have hread : (Piece.readQuotedName rest).map ending = nameOf (Quoted.split '`' rest) := by
    rw [Piece.readQuotedName]
    cases Quoted.split '`' rest <;> rfl
  rw [hread]
  exact .step hnext (quotedNameFrom_follows hat hbound)

/-- What the search for a mark makes of a raw string. -/
def rawStringOf (contents : List Char) :
    Option (List Char × List Char) → Except Cause (Option Kind × List Char)
  | some (body, left) => .ok (some (.string (String.ofList (contents ++ body))), left)
  | none => .error .unterminatedRawString

theorem rawStringFrom_follows {mark : List Char} {start : Nat} (contents : List Char)
    (hmark : ∀ c ∈ mark, isBreak c = false) (hnonempty : mark ≠ [])
    (hstart : At source start (contents ++ rest)) (h : At source offset rest)
    (hbound : rest.length < bound) :
    Follows source (rawStringFrom source mark start bound offset)
      (rawStringOf contents (Quoted.splitAtMark mark rest)) := by
  have hline (rest : List Char) : mark.isPrefixOf ('\n' :: rest) = false := by
    cases mark with
    | nil => exact absurd rfl hnonempty
    | cons c mark =>
      have hc : c ≠ '\n' := by
        rintro rfl
        exact absurd (hmark _ List.mem_cons_self) (by decide)
      simp [List.isPrefixOf, hc]
  induction bound generalizing offset rest contents with
  | zero => exact absurd hbound (Nat.not_lt_zero _)
  | succ bound ih =>
    rw [rawStringFrom]
    refine .step h.peek ?_
    cases rest with
    | nil => exact .refused _
    | cons c rest =>
      refine .step h.ahead ?_
      cases hfound : mark.isPrefixOf (c :: rest) with
      | true =>
        obtain ⟨left, hleft⟩ := List.isPrefixOf_iff_prefix.mp hfound
        obtain ⟨stop, hstop, hat⟩ := (hleft.symm ▸ h).advanceTimes fun c hc => by
          rintro rfl
          exact absurd (hmark _ hc) (by decide)
        have hsplit : Quoted.splitAtMark mark (c :: rest) = some ([], left) := by
          rw [Quoted.splitAtMark, if_pos hfound, ← hleft, List.drop_left]
        rw [if_pos rfl, hsplit]
        refine .step (hstart.slice h) (.step hstop ?_)
        rw [rawStringOf, List.append_nil]
        exact .ok _ hat
      | false =>
        obtain ⟨next, hnext, hat⟩ := h.advance
        have hsteps : contents ++ c :: rest =
            contents ++ firstStep (c :: rest) ++ behindStep (c :: rest) := by
          rw [List.append_assoc, firstStep_append]
        rw [if_neg Bool.false_ne_true, Quoted.splitAtMark_firstStep rest hfound hline]
        refine .step hnext ?_
        have hmore := ih _ (hsteps ▸ hstart) hat
          (Nat.lt_of_lt_of_le (length_behindStep_lt c rest) (Nat.le_of_lt_succ hbound))
        cases hsplit : Quoted.splitAtMark mark (behindStep (c :: rest)) with
        | none => rwa [hsplit] at hmore
        | some parts =>
          rw [hsplit, rawStringOf, List.append_assoc] at hmore
          exact hmore

theorem isBreak_closingBracket {opening closing : Char}
    (h : Piece.closingBracket? opening = some closing) : isBreak closing = false := by
  unfold Piece.closingBracket? at h
  repeat' split at h
  all_goals
    cases h
    try rfl

theorem rawString_follows {letter quote : Char} (hletter : letter = 'r' ∨ letter = 'R')
    (hquote : quote = '"' ∨ quote = '\'') (h : At source offset (letter :: quote :: rest))
    (hbound : rest.length < bound) :
    Follows source (rawString source bound offset)
      ((Piece.readRawString letter quote rest).map ending) := by
  have hletter' : letter ≠ '\r' := by rcases hletter with rfl | rfl <;> decide
  have hquote' : quote ≠ '\r' := by rcases hquote with rfl | rfl <;> decide
  have hquote'' : isBreak quote = false := by rcases hquote with rfl | rfl <;> decide
  obtain ⟨behind, hbehind, hat⟩ := h.advance_of_ne (ε := Cause) hletter'
  obtain ⟨inside, hinside, hat'⟩ := hat.advance_of_ne (ε := Cause) hquote'
  obtain ⟨bracket, hpassed, hbracket⟩ :=
    hat'.passWhile (ε := Cause) (p := (· == '-')) (by decide) hbound
  rw [rawString, Piece.readRawString]
  refine .step hbehind (.step hat.peek (.step hinside (.step hpassed (.step hbracket.peek ?_))))
  have hdashes : (rest.dropWhile (· == '-')).Sublist rest := List.dropWhile_sublist _
  simp only [List.head?_cons, Option.getD_some]
  cases hdrop : rest.dropWhile (· == '-') with
  | nil => exact .refused _
  | cons opening inner =>
    rw [hdrop] at hbracket hdashes
    simp only [List.head?_cons, Option.bind_some, Piece.openBracket?]
    cases hclosing : Piece.closingBracket? opening with
    | none => exact .refused _
    | some closing =>
      have hopening : opening ≠ '\r' := by
        rintro rfl
        cases hclosing
      obtain ⟨contents, hcontents, hat''⟩ := hbracket.advance_of_ne (ε := Cause) hopening
      refine .step hcontents ?_
      simp only [Option.map_some]
      have hmark : ∀ c ∈ closing :: (rest.takeWhile (· == '-') ++ [quote]), isBreak c = false := by
        refine List.forall_mem_cons.mpr ⟨isBreak_closingBracket hclosing, ?_⟩
        refine List.forall_mem_append.mpr ⟨fun c hc => ?_, ?_⟩
        · have hdash : (c == '-') = true := List.mem_takeWhile_imp (p := (· == '-')) hc
          rw [beq_iff_eq.mp hdash]
          rfl
        · exact List.forall_mem_singleton.mpr hquote''
      have hlength := hdashes.length_le
      have hbound' : inner.length < bound := by
        rw [List.length_cons] at hlength
        omega
      have hfollows := rawStringFrom_follows [] hmark (List.cons_ne_nil _ _) hat'' hat'' hbound'
      cases hsplit : Quoted.splitAtMark (closing :: (rest.takeWhile (· == '-') ++ [quote])) inner with
      | none => rwa [hsplit] at hfollows
      | some parts => rwa [hsplit] at hfollows

end Guarded
end TypeDrift
