import TypeDrift.Proofs.Token.Piece
import TypeDrift.Token.Scan

/-! # How tokens lie in their text

A text that can be scanned is a row of tiles: each token with its source text and with the gap
before it, and one more gap at the end (`Token.scan_layout`).  A gap is blanks and then at most one
comment, which must run up to a line break or to the end.  The first and the last place of a token
are the coordinates of its first and of its last character, counted from the beginning of the whole
text, so they say nothing of how the scanner got there.

Pieces are finer than tiles: a gap is any number of them.  The proof goes along the pieces and lets
a gap grow to the left (`Tile.pushGap`); what has to be seen is that nothing grows to the left of a
comment's end, because a comment ends where a line break begins.
-/
namespace TypeDrift

open Text

namespace Position

/-- The coordinates of the character that comes right behind the beginning of a text. -/
def behind (before : List Char) : Position :=
  ⟨lineBreaks before + 1, (lastLine before).length + 1⟩

/-- Strictly earlier in reading order. -/
def Before (p q : Position) : Prop :=
  p.line < q.line ∨ (p.line = q.line ∧ p.column < q.column)

theorem before_step (place : Position) (c : Char) : place.Before (place.step c) := by
  unfold step
  split
  · exact .inl (Nat.lt_succ_self _)
  · exact .inr ⟨rfl, Nat.lt_succ_self _⟩

theorem Before.trans {p q r : Position} (h : p.Before q) (h' : q.Before r) : p.Before r := by
  simp only [Before] at *
  omega

theorem before_foldl_step {text : List Char} (place : Position) (h : text ≠ []) :
    place.Before (text.foldl step place) := by
  induction text generalizing place with
  | nil => exact absurd rfl h
  | cons c text ih =>
    by_cases htext : text = []
    · subst htext
      exact before_step place c
    · exact (before_step place c).trans (ih _ htext)

theorem steps_ne_nil {text : List Char} (h : text ≠ []) : steps text ≠ [] := by
  fun_cases steps text
  · simp
  · simp
  · exact absurd rfl h

/-- A text that is not empty has its end behind its last place. -/
theorem last_before_after {text : List Char} (place : Position) (h : text ≠ []) :
    (place.last text).Before (place.after text) := by
  have hsteps := List.dropLast_append_getLast (steps_ne_nil h)
  rw [after, ← hsteps, List.foldl_append]
  exact before_step _ _

/-- The last place of a text is not before the first one. -/
theorem eq_or_before_last (place : Position) (text : List Char) :
    place = place.last text ∨ place.Before (place.last text) := by
  by_cases hsteps : (Text.steps text).dropLast = []
  · exact .inl (by rw [last, hsteps, List.foldl_nil])
  · exact .inr (before_foldl_step place hsteps)

end Position

/-- What may stand between two tokens: blanks, and behind them at most one comment, which goes on
to where `next` begins with a line break or is empty. -/
def IsGap (gap next : List Char) : Prop :=
  ∃ blanks comment, gap = blanks ++ comment ∧
    (∀ c ∈ blanks, c = ' ' ∨ c = '\t' ∨ c = '\x0c') ∧
    (comment = [] ∨
      ∃ body, comment = '#' :: body ∧ (∀ c ∈ body, isBreak c = false) ∧
        ∀ c ∈ next.head?, isBreak c = true)

theorem isGap_nil (next : List Char) : IsGap [] next := ⟨[], [], rfl, by simp, .inl rfl⟩

theorem IsGap.cons_blank {c : Char} {gap next : List Char} (hc : Piece.isBlank c = true)
    (h : IsGap gap next) : IsGap (c :: gap) next := by
  obtain ⟨blanks, comment, rfl, hblanks, hcomment⟩ := h
  refine ⟨c :: blanks, comment, rfl, fun d hd => ?_, hcomment⟩
  rcases List.mem_cons.mp hd with rfl | hd
  · simpa [Piece.isBlank, or_assoc] using hc
  · exact hblanks d hd

/-- Where a comment has ended, no gap goes on. -/
theorem IsGap.eq_nil {gap next : List Char} (h : IsGap gap next)
    (hhead : ∀ c ∈ (gap ++ next).head?, isBreak c = true) : gap = [] := by
  obtain ⟨blanks, comment, rfl, hblanks, hcomment⟩ := h
  cases blanks with
  | cons c blanks =>
    have hbreak := hhead c rfl
    rcases hblanks c List.mem_cons_self with rfl | rfl | rfl <;> cases hbreak
  | nil =>
    rcases hcomment with rfl | ⟨body, rfl, _⟩
    · rfl
    · cases hhead '#' rfl

theorem IsGap.cons_comment {body rest gap next : List Char} (h : IsGap gap next)
    (hbody : ∀ c ∈ body, isBreak c = false) (hrest : ∀ c ∈ rest.head?, isBreak c = true)
    (hpre : gap ++ next <+: rest) : IsGap ('#' :: body ++ gap) next := by
  have hhead : ∀ c ∈ (gap ++ next).head?, isBreak c = true := by
    intro c hc
    obtain ⟨more, rfl⟩ := hpre
    refine hrest c ?_
    rw [List.head?_append, hc]
    rfl
  obtain rfl := h.eq_nil hhead
  exact ⟨[], '#' :: body, by simp, by simp, .inr ⟨body, rfl, hbody, hhead⟩⟩

/-- A token, its source text, and the gap before it. -/
structure Tile where
  gap : List Char
  text : List Char
  token : Token

namespace Tile

/-- The characters of a tile. -/
def chars (tile : Tile) : List Char := tile.gap ++ tile.text

/-- The text of a token is its lexeme; only a line break may be written in three ways. -/
structure Spelled (tile : Tile) : Prop where
  text_ne_nil : tile.text ≠ []
  kind_ne : tile.token.kind ≠ .endOfInput
  lexeme :
    if tile.token.kind = .newline then
      tile.token.text = "\n" ∧
        (tile.text = ['\n'] ∨ tile.text = ['\r'] ∨ tile.text = ['\r', '\n'])
    else tile.token.text.toList = tile.text

/-- A token stands where its text stands, from the first character to the last; a line break has
both its places at its start. -/
structure Placed (before : List Char) (tile : Tile) : Prop where
  start : tile.token.span.start = .behind (before ++ tile.gap)
  stop : tile.token.span.stop =
    if tile.token.kind = .newline then .behind (before ++ tile.gap)
    else .behind (before ++ tile.gap ++ tile.text.dropLast)

/-- Tiles that lie one behind the other, with a gap at the end, all of it behind `before`. -/
def Laid (before : List Char) : List Tile → List Char → Prop
  | [], last => IsGap last []
  | tile :: tiles, last =>
    IsGap tile.gap tile.text ∧ tile.Spelled ∧ tile.Placed before ∧
      Laid (before ++ tile.chars) tiles last

/-! ## Growing a gap -/

/-- Tiles and a last gap, with more in front of them. It goes to the first gap there is. -/
def pushGap (more : List Char) : List Tile × List Char → List Tile × List Char
  | ([], last) => ([], more ++ last)
  | (tile :: tiles, last) => ({ tile with gap := more ++ tile.gap } :: tiles, last)

/-- The characters of tiles and of the last gap. -/
def allChars (tiles : List Tile × List Char) : List Char := tiles.1.flatMap chars ++ tiles.2

theorem allChars_pushGap (more : List Char) (tiles : List Tile × List Char) :
    allChars (pushGap more tiles) = more ++ allChars tiles := by
  obtain ⟨_ | ⟨tile, tiles⟩, last⟩ := tiles
  · rfl
  · simp [pushGap, allChars, chars]

theorem tokens_pushGap (more : List Char) (tiles : List Tile × List Char) :
    (pushGap more tiles).1.map token = tiles.1.map token := by
  obtain ⟨_ | ⟨tile, tiles⟩, last⟩ := tiles <;> rfl

/-- A gap in front of tiles lies with them, if it does so with the first gap there is. -/
theorem laid_pushGap {before more : List Char} {tiles : List Tile × List Char}
    (h : Laid (before ++ more) tiles.1 tiles.2)
    (hgap : ∀ gap next, IsGap gap next → (gap ++ next) <+: allChars tiles →
      IsGap (more ++ gap) next) :
    Laid before (pushGap more tiles).1 (pushGap more tiles).2 := by
  obtain ⟨_ | ⟨tile, tiles⟩, last⟩ := tiles
  · exact hgap last [] h (by simp [allChars])
  · obtain ⟨hfirst, hspelled, hplaced, hrest⟩ := h
    refine ⟨hgap _ _ hfirst ?_, ⟨hspelled.1, hspelled.2, hspelled.3⟩, ⟨?_, ?_⟩, ?_⟩
    · simp only [allChars, List.flatMap_cons, chars, List.append_assoc]
      rw [← List.append_assoc]
      exact List.prefix_append _ _
    · simpa [pushGap, List.append_assoc] using hplaced.start
    · simpa [pushGap, List.append_assoc] using hplaced.stop
    · simpa [pushGap, chars, List.append_assoc] using hrest

end Tile

namespace Token

open Tile

/-- The last place of a solid text is that of its last character. -/
theorem last_solid {kind : Kind} {text : List Char} (before : List Char)
    (h : Piece.Solid kind text) (htext : text ≠ []) :
    (Position.start.after before).last text = .behind (before ++ text.dropLast) := by
  have hlast : text.getLast htext ≠ '\n' := by
    intro hbad
    have hbreak := h.last _ (List.getLast?_eq_some_getLast htext)
    rw [hbad] at hbreak
    cases hbreak
  -- The text does not begin within a line break, so its places are counted on from those before.
  have hsplit : Splits before text.dropLast := by
    rintro ⟨_, hhead⟩
    have hfirst : text.head? = some '\n' := by
      rw [← List.dropLast_append_getLast htext, List.head?_append, hhead]
      rfl
    cases h.head _ hfirst
  calc (Position.start.after before).last text
      = (Position.start.after before).last (text.dropLast ++ [text.getLast htext]) := by
        rw [List.dropLast_append_getLast htext]
    _ = (Position.start.after before).after text.dropLast :=
        Position.last_concat _ (splits_of_head [] hlast)
    _ = Position.start.after (before ++ text.dropLast) := (Position.after_append _ hsplit).symm
    _ = .behind (before ++ text.dropLast) := Position.after_start _

/-- The tile of a piece that is a token, behind tiles that lie behind it. -/
theorem exists_tile {before text rest : List Char} {token : Token} {tokens : List Token}
    {tiles : List Tile × List Char} (hspelled : Spelled ⟨[], text, token⟩)
    (hplaced : Placed before ⟨[], text, token⟩) (hchars : allChars tiles = rest)
    (hlaid : Laid (before ++ text) tiles.1 tiles.2)
    (htokens : tokens = tiles.1.map Tile.token ++ [endAt (.behind (before ++ text ++ rest))]) :
    ∃ tiles, allChars tiles = text ++ rest ∧ Laid before tiles.1 tiles.2 ∧
      token :: tokens = tiles.1.map Tile.token ++ [endAt (.behind (before ++ (text ++ rest)))] := by
  refine ⟨(⟨[], text, token⟩ :: tiles.1, tiles.2), ?_, ⟨isGap_nil _, hspelled, hplaced, hlaid⟩, ?_⟩
  · simp [← hchars, allChars, chars]
  · rw [htokens, List.append_assoc before]
    rfl

/-- The characters of a gap, in front of tiles that lie behind it. -/
theorem exists_pushGap {before text rest : List Char} {tokens : List Token}
    {tiles : List Tile × List Char}
    (hgap : ∀ gap next, IsGap gap next → gap ++ next <+: rest → IsGap (text ++ gap) next)
    (hchars : allChars tiles = rest) (hlaid : Laid (before ++ text) tiles.1 tiles.2)
    (htokens : tokens = tiles.1.map Tile.token ++ [endAt (.behind (before ++ text ++ rest))]) :
    ∃ tiles, allChars tiles = text ++ rest ∧ Laid before tiles.1 tiles.2 ∧
      tokens = tiles.1.map Tile.token ++ [endAt (.behind (before ++ (text ++ rest)))] := by
  refine ⟨pushGap text tiles, ?_, laid_pushGap hlaid (hchars ▸ hgap), ?_⟩
  · rw [allChars_pushGap, hchars]
  · rw [htokens, tokens_pushGap, List.append_assoc before]

theorem scanFrom_laid {before cs : List Char} {tokens : List Token}
    (h : scanFrom (.after .start before) cs = .ok tokens) (hsplit : Splits before cs) :
    ∃ tiles, allChars tiles = cs ∧ Laid before tiles.1 tiles.2 ∧
      tokens = tiles.1.map token ++ [endAt (.behind (before ++ cs))] := by
  refine scanFrom_induction (motive := fun place cs tokens =>
    ∀ before, place = .after .start before → Splits before cs →
      ∃ tiles, allChars tiles = cs ∧ Laid before tiles.1 tiles.2 ∧
        tokens = tiles.1.map token ++ [endAt (.behind (before ++ cs))])
    ?_ ?_ h before rfl hsplit
  · rintro place before rfl _
    refine ⟨([], []), rfl, isGap_nil [], ?_⟩
    rw [Position.after_start, List.append_nil]
    rfl
  · rintro place c rest piece tokens hpiece _ ih before rfl hsplit
    have htext := Piece.read_text_ne_nil hpiece
    have hshape := Piece.read_shape hpiece
    rw [← Piece.read_append hpiece] at hsplit ⊢
    -- The scanner goes on where the text up to here ends, counted from the very beginning.
    have hplace := Position.after_append .start hsplit.of_append
    have hstart : Position.after .start before = .behind (before ++ []) := by
      rw [List.append_nil]
      exact Position.after_start before
    obtain ⟨tiles, hchars, hlaid, htokens⟩ :=
      ih (before ++ piece.text) hplace.symm (hshape.splits.append_left htext before)
    cases hshape with
    | blank hc => exact exists_pushGap (fun _ _ hgap _ => hgap.cons_blank hc) hchars hlaid htokens
    | comment hbody hrest =>
      exact exists_pushGap (fun _ _ hgap hpre => hgap.cons_comment hbody hrest hpre) hchars hlaid
        htokens
    | newline hbreak _ =>
      rw [ofPiece_newline]
      refine exists_tile ⟨htext, nofun, ?_⟩ ⟨hstart, ?_⟩ hchars hlaid htokens
      · rw [if_pos rfl]
        exact ⟨rfl, hbreak⟩
      · rw [if_pos rfl]
        exact hstart
    | token hsolid =>
      rw [ofPiece_token _ hsolid.fits.1.1]
      refine exists_tile ⟨htext, hsolid.fits.1.2, ?_⟩ ⟨hstart, ?_⟩ hchars hlaid htokens
      · rw [if_neg hsolid.fits.1.1, String.toList_ofList]
      · rw [if_neg hsolid.fits.1.1, List.append_nil]
        exact last_solid before hsolid htext

/-! ## Order -/

theorem pairwise_ofPiece (place : Position) (piece : Piece) (R : Token → Token → Prop) :
    (ofPiece place piece).Pairwise R := by
  obtain ⟨_ | kind, text, rest⟩ := piece
  · exact .nil
  · exact List.pairwise_singleton _ _

/-- The token of a piece begins where the piece does and ends within it. -/
theorem span_of_mem_ofPiece {place : Position} {piece : Piece} {token : Token}
    (htext : piece.text ≠ []) (h : token ∈ ofPiece place piece) :
    token.span.start = place ∧ token.span.stop.Before (place.after piece.text) := by
  obtain ⟨_ | kind, text, rest⟩ := piece
  · cases h
  · by_cases hkind : kind = .newline
    · subst hkind
      obtain rfl := List.mem_singleton.mp h
      exact ⟨rfl, Position.before_foldl_step place (Position.steps_ne_nil htext)⟩
    · rw [ofPiece_token place hkind] at h
      obtain rfl := List.mem_singleton.mp h
      exact ⟨rfl, Position.last_before_after place htext⟩

/-- A token begins behind the beginning and behind the end of those before it. -/
def Precedes (earlier later : Token) : Prop :=
  earlier.span.start.Before later.span.start ∧ earlier.span.stop.Before later.span.start

theorem scanFrom_ordered {place : Position} {cs : List Char} {tokens : List Token}
    (h : scanFrom place cs = .ok tokens) :
    (∀ token ∈ tokens, place = token.span.start ∨ place.Before token.span.start) ∧
      tokens.Pairwise Precedes := by
  refine scanFrom_induction (motive := fun place _ tokens =>
    (∀ token ∈ tokens, place = token.span.start ∨ place.Before token.span.start) ∧
      tokens.Pairwise Precedes)
    ?_ ?_ h
  · intro place
    exact ⟨fun token htoken => .inl (List.mem_singleton.mp htoken ▸ rfl),
      List.pairwise_singleton _ _⟩
  · rintro place c rest piece tokens hpiece _ ⟨hstart, hpairwise⟩
    have htext := Piece.read_text_ne_nil hpiece
    have hplace := Position.before_foldl_step place (Position.steps_ne_nil htext)
    constructor
    · intro token htoken
      rcases List.mem_append.mp htoken with hfirst | hlater
      · exact .inl (span_of_mem_ofPiece htext hfirst).1.symm
      · rcases hstart token hlater with heq | hbefore
        · exact .inr (heq ▸ hplace)
        · exact .inr (hplace.trans hbefore)
    · refine List.pairwise_append.mpr ⟨pairwise_ofPiece place piece _, hpairwise, ?_⟩
      intro earlier hearlier later hlater
      obtain ⟨hfirst, hstop⟩ := span_of_mem_ofPiece htext hearlier
      rcases hstart later hlater with heq | hbefore
      · exact ⟨hfirst ▸ heq ▸ hplace, heq ▸ hstop⟩
      · exact ⟨hfirst ▸ hplace.trans hbefore, hstop.trans hbefore⟩

/-- No token ends before it begins. -/
theorem scanFrom_start_le_stop {place : Position} {cs : List Char} {tokens : List Token}
    (h : scanFrom place cs = .ok tokens) :
    ∀ token ∈ tokens, token.span.start = token.span.stop ∨
      token.span.start.Before token.span.stop := by
  refine scanFrom_induction (motive := fun _ _ tokens => ∀ token ∈ tokens,
    token.span.start = token.span.stop ∨ token.span.start.Before token.span.stop) ?_ ?_ h
  · exact fun place => List.forall_mem_singleton.mpr (.inl rfl)
  · rintro place c rest ⟨_ | kind, text, later⟩ tokens - - ih
    · exact ih
    · refine List.forall_mem_append.mpr ⟨?_, ih⟩
      by_cases hkind : kind = .newline
      · subst hkind
        exact List.forall_mem_singleton.mpr (.inl rfl)
      · rw [ofPiece_token place hkind]
        exact List.forall_mem_singleton.mpr (place.eq_or_before_last text)

/-- **A text is its tokens and the gaps between them.**  Every text that can be scanned is a row of
tiles with a gap at the end: the tokens are those of the tiles, in their order, and the end of input
behind them; each is spelled by its text, and stands where that text stands in the source. And each
token begins behind the end of those before it. -/
theorem scan_layout {source : String} {tokens : List Token} (h : scan source = .ok tokens) :
    ∃ (tiles : List Tile) (last : List Char),
      source.toList = tiles.flatMap Tile.chars ++ last ∧
      tokens = tiles.map Tile.token ++ [endAt (.behind source.toList)] ∧
      Laid [] tiles last ∧
      tokens.Pairwise fun earlier later => earlier.span.stop.Before later.span.start := by
  have hfrom : scanFrom (.after .start []) source.toList = .ok tokens := h
  obtain ⟨⟨tiles, last⟩, hchars, hlaid, htokens⟩ := scanFrom_laid hfrom (splits_nil_left _)
  exact ⟨tiles, last, hchars.symm, htokens, hlaid, (scanFrom_ordered h).2.imp And.right⟩

/-- A string over two lines, a comment behind it, and a line break of two characters. -/
theorem scan_layout_across_lines :
    scan "x = 'a\rb' # note\r\n\ty" = .ok
      [⟨⟨.identifier, "x"⟩, ⟨⟨1, 1⟩, ⟨1, 1⟩⟩⟩, ⟨⟨.equalAssign, "="⟩, ⟨⟨1, 3⟩, ⟨1, 3⟩⟩⟩,
        ⟨⟨.string "a\rb", "'a\rb'"⟩, ⟨⟨1, 5⟩, ⟨2, 2⟩⟩⟩, ⟨⟨.newline, "\n"⟩, ⟨⟨2, 10⟩, ⟨2, 10⟩⟩⟩,
        ⟨⟨.identifier, "y"⟩, ⟨⟨3, 2⟩, ⟨3, 2⟩⟩⟩, endAt ⟨3, 3⟩] ∧
      ∃ (tiles : List Tile) (last : List Char),
        "x = 'a\rb' # note\r\n\ty".toList = tiles.flatMap Tile.chars ++ last ∧
        Laid [] tiles last ∧ (tiles.map Tile.token).length = 5 := by
  have h : scan "x = 'a\rb' # note\r\n\ty" = .ok
      [⟨⟨.identifier, "x"⟩, ⟨⟨1, 1⟩, ⟨1, 1⟩⟩⟩, ⟨⟨.equalAssign, "="⟩, ⟨⟨1, 3⟩, ⟨1, 3⟩⟩⟩,
        ⟨⟨.string "a\rb", "'a\rb'"⟩, ⟨⟨1, 5⟩, ⟨2, 2⟩⟩⟩, ⟨⟨.newline, "\n"⟩, ⟨⟨2, 10⟩, ⟨2, 10⟩⟩⟩,
        ⟨⟨.identifier, "y"⟩, ⟨⟨3, 2⟩, ⟨3, 2⟩⟩⟩, endAt ⟨3, 3⟩] := by decide +kernel
  obtain ⟨tiles, last, hchars, htokens, hlaid, _⟩ := scan_layout h
  refine ⟨h, tiles, last, hchars, hlaid, ?_⟩
  have hlength := congrArg List.length htokens
  simpa using hlength.symm

end Token
end TypeDrift
