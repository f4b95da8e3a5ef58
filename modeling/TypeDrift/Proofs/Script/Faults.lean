import TypeDrift.Proofs.Expr.Completion
import TypeDrift.Proofs.Script.Append

/-! # Where a script fails

A text that has tokens is no script when a token is met that nothing can go on with; the fault stands
at that token.  Whether it is met is decided by the tokens before it and by the token itself
(`ofTokens_error_of_agree`), and the tokens before it are never to blame: other ones behind them make
them a script (`ofTokens_completable`).
-/
namespace TypeDrift.Script

theorem readAll_of_ofTokens_eq_error {tokens : List Token} {fault : Fault}
    (h : ofTokens tokens = .error fault) :
    ∃ refusal, Expr.readAll (tokens.map Token.toLexeme) = .error refusal ∧
      fault = faultOf tokens.toArray refusal := by
  unfold ofTokens at h
  split at h
  · cases h
  · next refusal hrefusal =>
    cases h
    exact ⟨refusal, hrefusal, rfl⟩

/-- No two tokens of a text begin at the same place. -/
theorem index_eq_of_start {source : String} {tokens : List Token}
    (hscan : Token.scan source = .ok tokens) {i j : Nat} (hi : i < tokens.length)
    (hj : j < tokens.length)
    (h : (spanAt tokens.toArray i).start = (spanAt tokens.toArray j).start) : i = j := by
  have hordered : tokens.toArray.toList.Pairwise Token.Precedes := (Token.scanFrom_ordered hscan).2
  have hirrefl (place : Position) : ¬place.Before place := by
    rintro (hline | ⟨-, hcolumn⟩)
    · exact Nat.lt_irrefl _ hline
    · exact Nat.lt_irrefl _ hcolumn
  rcases Nat.lt_trichotomy i j with hlt | heq | hlt
  · exact absurd (h ▸ start_before_start hordered hlt hj) (hirrefl _)
  · exact heq
  · exact absurd (h ▸ start_before_start hordered hlt hi) (hirrefl _)

theorem spanAt_of_getElem? {tokens : List Token} {k : Nat} {token : Token}
    (h : tokens[k]? = some token) : spanAt tokens.toArray k = token.span := by
  rw [spanAt_eq, h]
  rfl

/-- **A syntax fault is decided by the tokens up to the one it stands at.**  When the tokens of a
text fail at one of them, other tokens that agree with them up to there, but for their places, fail
there for the same reason. -/
theorem ofTokens_error_of_agree {source : String} {tokens others : List Token} {k : Nat}
    {token other : Token} {cause : Cause} (hscan : Token.scan source = .ok tokens)
    (hagree : ∀ i ≤ k, tokens[i]?.map Token.toLexeme = others[i]?.map Token.toLexeme)
    (htoken : tokens[k]? = some token) (hother : others[k]? = some other)
    (hfault : ofTokens tokens = .error ⟨cause, token.span.start⟩) :
    ofTokens others = .error ⟨cause, other.span.start⟩ := by
  obtain ⟨refusal, hread, hplace⟩ := readAll_of_ofTokens_eq_error hfault
  have hk := List.getElem?_eq_some_iff.mp htoken |>.1
  have hindex : refusal.index = k := by
    refine index_eq_of_start hscan (index_lt_of_scan hscan hread) hk ?_
    rw [spanAt_of_getElem? htoken]
    exact (congrArg Fault.place hplace).symm
  have htake : (others.map Token.toLexeme).take (k + 1) =
      (tokens.map Token.toLexeme).take (k + 1) := by
    refine List.ext_getElem? fun i => ?_
    by_cases hi : i < k + 1
    · rw [List.getElem?_take_of_lt hi, List.getElem?_take_of_lt hi, List.getElem?_map,
        List.getElem?_map, hagree i (Nat.le_of_lt_succ hi)]
    · rw [List.getElem?_take_eq_none (Nat.le_of_not_lt hi),
        List.getElem?_take_eq_none (Nat.le_of_not_lt hi)]
  have hsplit := List.take_append_drop (k + 1) (tokens.map Token.toLexeme)
  rw [← hsplit] at hread
  have hrefused := Expr.readAll_refused_alike .none
    ((others.map Token.toLexeme).drop (k + 1)) hread (by simp; omega)
  rw [Lexeme.map_relabel_none, ← htake, List.take_append_drop, Lexeme.relabel_none] at hrefused
  obtain ⟨rfl, -⟩ := Fault.mk.inj hplace
  simp only [ofTokens, hrefused, faultOf, hindex, spanAt_of_getElem? hother]

/-- A fault can be compared where scripts cannot. -/
theorem eq_error_of_map {α β : Type} {x : Except Fault α} {f : α → β} {fault : Fault}
    (h : x.map f = .error fault) : x = .error fault := by
  cases x with
  | error found => exact congrArg Except.error (Except.error.inj h)
  | ok a => cases h

/-- A brace in the arguments of a call, behind a line break that has been looked past for the equals
sign of a named one. -/
theorem ofTokens_error_of_agree_brace :
    ∃ tokens others,
      Token.scan "f(a\n  \x7d" = .ok tokens ∧ Token.scan "f(a\n\x7d = 'b')" = .ok others ∧
      ofTokens tokens = .error ⟨.unexpected ⟨.rightBrace, "\x7d"⟩, ⟨2, 3⟩⟩ ∧
      ofTokens others = .error ⟨.unexpected ⟨.rightBrace, "\x7d"⟩, ⟨2, 1⟩⟩ := by
  let front (place : Position) : List Token :=
    [⟨⟨.identifier, "f"⟩, ⟨⟨1, 1⟩, ⟨1, 1⟩⟩⟩, ⟨⟨.leftParen, "("⟩, ⟨⟨1, 2⟩, ⟨1, 2⟩⟩⟩,
      ⟨⟨.identifier, "a"⟩, ⟨⟨1, 3⟩, ⟨1, 3⟩⟩⟩, ⟨⟨.newline, "\n"⟩, ⟨⟨1, 4⟩, ⟨1, 4⟩⟩⟩,
      ⟨⟨.rightBrace, "\x7d"⟩, ⟨place, place⟩⟩]
  let tokens : List Token := front ⟨2, 3⟩ ++ [.endAt ⟨2, 4⟩]
  let others : List Token := front ⟨2, 1⟩ ++
    [⟨⟨.equalAssign, "="⟩, ⟨⟨2, 3⟩, ⟨2, 3⟩⟩⟩, ⟨⟨.string "b", "'b'"⟩, ⟨⟨2, 5⟩, ⟨2, 7⟩⟩⟩,
      ⟨⟨.rightParen, ")"⟩, ⟨⟨2, 8⟩, ⟨2, 8⟩⟩⟩, .endAt ⟨2, 9⟩]
  have hscan : Token.scan "f(a\n  \x7d" = .ok tokens := by decide +kernel
  have hfault : ofTokens tokens = .error ⟨.unexpected ⟨.rightBrace, "\x7d"⟩, ⟨2, 3⟩⟩ :=
    eq_error_of_map (f := fun _ => ()) (by decide +kernel)
  have hagree : ∀ i ≤ 4, tokens[i]?.map Token.toLexeme = others[i]?.map Token.toLexeme := by decide
  exact ⟨tokens, others, hscan, by decide +kernel, hfault,
    ofTokens_error_of_agree hscan hagree rfl rfl hfault⟩

/-- **A syntax fault stands at the first token that does not fit.**  When the tokens of a text fail,
they do so at one of them, and those before it can be completed: with some more tokens behind them, and
the end of input at any place behind these, they are a script. -/
theorem ofTokens_completable {source : String} {tokens : List Token} {fault : Fault}
    (hscan : Token.scan source = .ok tokens) (hfault : ofTokens tokens = .error fault) :
    ∃ k token, tokens[k]? = some token ∧
      fault = ⟨.unexpected token.toLexeme, token.span.start⟩ ∧
      ∃ more : List Token, (∀ token ∈ more, token.kind ≠ .endOfInput) ∧
        ∀ place, ∃ script, ofTokens (tokens.take k ++ more ++ [Token.endAt place]) = .ok script := by
  obtain ⟨refusal, hread, rfl⟩ := readAll_of_ofTokens_eq_error hfault
  have hindex := index_lt_of_scan hscan hread
  have htoken := List.getElem?_eq_getElem hindex
  have hfound := Expr.found_of_readAll_eq_error hread (by simpa using hindex)
  rw [List.getElem?_map, htoken] at hfound
  obtain ⟨kinds, hend, es, hcompleted⟩ := Expr.readAll_completable hread
  -- Where the tokens that complete the others stand does not matter.
  refine ⟨refusal.index, _, htoken, by rw [faultOf, spanAt_of_getElem? htoken, Option.some.inj hfound],
    kinds.map fun kind => ⟨kind.lexeme, ⟨.start, .start⟩⟩, ?_, fun place => ?_⟩
  · refine List.forall_mem_map.mpr fun kind hkind hkinds => hend ?_
    rwa [← show kind = .endOfInput from hkinds]
  · have hlexemes : (tokens.take refusal.index ++
        kinds.map (fun kind => (⟨kind.lexeme, ⟨.start, .start⟩⟩ : Token)) ++
        [Token.endAt place]).map Token.toLexeme =
        (tokens.map Token.toLexeme).take refusal.index ++ kinds.map Kind.lexeme ++ [.endOfInput] := by
      rw [List.map_append, List.map_append, List.map_take, List.map_map]
      rfl
    exact ⟨_, by rw [ofTokens, hlexemes, hcompleted]⟩

/-- A brace where the header of a loop ought to be closed, in the arguments of a call. -/
theorem ofTokens_completable_loop :
    ∃ tokens k more script,
      Token.scan "f(for (i in s \x7d" = .ok tokens ∧
      ofTokens tokens = .error ⟨.unexpected ⟨.rightBrace, "\x7d"⟩, ⟨1, 15⟩⟩ ∧
      ofTokens (tokens.take k ++ more ++ [Token.endAt ⟨1, 15⟩]) = .ok script := by
  let tokens : List Token :=
    [⟨⟨.identifier, "f"⟩, ⟨⟨1, 1⟩, ⟨1, 1⟩⟩⟩, ⟨⟨.leftParen, "("⟩, ⟨⟨1, 2⟩, ⟨1, 2⟩⟩⟩,
      ⟨⟨.keyword .forWord, "for"⟩, ⟨⟨1, 3⟩, ⟨1, 5⟩⟩⟩, ⟨⟨.leftParen, "("⟩, ⟨⟨1, 7⟩, ⟨1, 7⟩⟩⟩,
      ⟨⟨.identifier, "i"⟩, ⟨⟨1, 8⟩, ⟨1, 8⟩⟩⟩, ⟨⟨.keyword .inWord, "in"⟩, ⟨⟨1, 10⟩, ⟨1, 11⟩⟩⟩,
      ⟨⟨.identifier, "s"⟩, ⟨⟨1, 13⟩, ⟨1, 13⟩⟩⟩, ⟨⟨.rightBrace, "\x7d"⟩, ⟨⟨1, 15⟩, ⟨1, 15⟩⟩⟩,
      .endAt ⟨1, 16⟩]
  have hscan : Token.scan "f(for (i in s \x7d" = .ok tokens := by decide +kernel
  have hfault : ofTokens tokens = .error ⟨.unexpected ⟨.rightBrace, "\x7d"⟩, ⟨1, 15⟩⟩ :=
    eq_error_of_map (f := fun _ => ()) (by decide +kernel)
  obtain ⟨k, token, -, -, more, -, hscript⟩ := ofTokens_completable hscan hfault
  obtain ⟨script, hscript⟩ := hscript ⟨1, 15⟩
  exact ⟨tokens, k, more, script, hscan, hfault, hscript⟩

end TypeDrift.Script
