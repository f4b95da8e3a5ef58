import TypeDrift.Proofs.Expr.Append
import TypeDrift.Proofs.Token.Append
import TypeDrift.Proofs.Typing.Renumber
import TypeDrift.Script.CallSite

/-! # One script behind another

When a text is a script, then that text, a line feed and another text are a script just if the other
text is one, and the parts of the whole are those of the two: its tokens, its expressions, and what
is read off them by place (`read_append_newline`).  What comes from the second text stands that many
lines further down and has indices that are that much larger, and nothing else is changed.

Assignments and calls are listed by their places.  Tokens begin in their order, so all of the first
script come before all of the second, and the two lists are sorted one by one.
-/
namespace TypeDrift

open Text

section Sorting
variable {α : Type} {le : α → α → Bool} {l m : List α}

/-- What fails a test does not come under those at the front that pass it. -/
theorem takeWhile_append_of_forall {p : α → Bool} (hm : ∀ a ∈ m, p a = false) :
    (l ++ m).takeWhile p = l.takeWhile p ∧ (l ++ m).dropWhile p = l.dropWhile p ++ m := by
  have htake : m.takeWhile p = [] := by
    cases m with
    | nil => rfl
    | cons a m => exact List.takeWhile_cons_of_neg (by simp [hm a List.mem_cons_self])
  have hdrop : m.dropWhile p = m := by
    cases m with
    | nil => rfl
    | cons a m => exact List.dropWhile_cons_of_neg (by simp [hm a List.mem_cons_self])
  induction l with
  | nil => exact ⟨htake, hdrop⟩
  | cons a l ih =>
    by_cases ha : p a = true
    · simp only [List.cons_append, List.takeWhile_cons_of_pos ha, List.dropWhile_cons_of_pos ha, ih,
        and_self]
    · simp only [List.cons_append, List.takeWhile_cons_of_neg ha, List.dropWhile_cons_of_neg ha,
        and_self]

variable (trans : ∀ a b c, le a b → le b c → le a c) (total : ∀ a b, le a b || le b a)
include trans total

/-- An element is sorted in behind those that have to come before it. -/
theorem mergeSort_cons_eq (a : α) (l : List α) :
    (a :: l).mergeSort le =
      (l.mergeSort le).takeWhile (!le a ·) ++ a :: (l.mergeSort le).dropWhile (!le a ·) := by
  obtain ⟨before, behind, hcons, hl, hbefore⟩ := List.mergeSort_cons trans total a l
  have hsorted := List.pairwise_mergeSort trans total (a :: l)
  rw [hcons, List.pairwise_append, List.pairwise_cons] at hsorted
  obtain ⟨htake, hdrop⟩ := takeWhile_append_of_forall (l := before) (m := behind)
    (p := (!le a ·)) fun b hb => by simp [hsorted.2.1.1 b hb]
  -- Before the element stand just those that it does not come before.
  rw [hcons, hl, htake, hdrop, List.takeWhile_eq_self_iff.mpr hbefore,
    List.dropWhile_eq_nil_iff.mpr hbefore, List.nil_append]

/-- Two lists of which the one has to come before the other are sorted one by one. -/
theorem mergeSort_append (h : ∀ a ∈ l, ∀ b ∈ m, le a b) :
    (l ++ m).mergeSort le = l.mergeSort le ++ m.mergeSort le := by
  induction l with
  | nil => simp
  | cons a l ih =>
    have hm : ∀ b ∈ m.mergeSort le, (!le a b) = false := fun b hb => by
      simp [h a List.mem_cons_self b (List.mem_mergeSort.mp hb)]
    obtain ⟨htake, hdrop⟩ := takeWhile_append_of_forall (l := l.mergeSort le) hm
    rw [List.cons_append, mergeSort_cons_eq trans total,
      ih fun b hb => h b (List.mem_cons_of_mem a hb), htake, hdrop, mergeSort_cons_eq trans total a l]
    simp

end Sorting

/-- The same assignment, so many lines further down and so many tokens later. -/
def Assignment.later (lines distance : Nat) (assignment : Assignment) : Assignment :=
  { assignment with
    place := assignment.place.down lines
    value := assignment.value.renumber (.shift distance) }

/-- The same call, so many lines further down. -/
def CallSite.down (lines : Nat) (site : CallSite) : CallSite :=
  { site with place := site.place.down lines }

namespace Script

/-- A row is refused at one of its tokens, the end of input among them. -/
theorem index_lt_of_row {row : List Token} {place : Position} {refusal : Refusal}
    (hrow : ∀ token ∈ row, token.kind ≠ .endOfInput)
    (h : Expr.readAll ((row ++ [Token.endAt place]).map Token.toLexeme) = .error refusal) :
    refusal.index < (row ++ [Token.endAt place]).length := by
  rw [List.map_append] at h
  have hle := Expr.index_le_of_readAll_eq_error (List.forall_mem_map.mpr hrow) h
  rw [List.length_map] at hle
  simpa using Nat.lt_succ_of_le hle

theorem index_lt_of_scan {source : String} {tokens : List Token} {refusal : Refusal}
    (hscan : Token.scan source = .ok tokens)
    (h : Expr.readAll (tokens.map Token.toLexeme) = .error refusal) :
    refusal.index < tokens.length := by
  obtain ⟨row, rfl, hkinds⟩ := Token.scan_row hscan
  exact index_lt_of_row hkinds h

theorem spanAt_eq (tokens : Array Token) (index : Nat) :
    spanAt tokens index = (tokens.toList[index]?.map Token.span).getD ⟨.start, .start⟩ := by
  rw [spanAt, Array.getElem?_toList]

theorem spanAt_eq_span {tokens : Array Token} {index : Nat} {token : Token}
    (h : tokens[index]? = some token) : spanAt tokens index = token.span := by
  rw [spanAt, h]
  rfl

theorem tokensOf_eq (script : Script) (range : TokenRange) :
    script.tokensOf range = (script.tokens.toList.take range.stop).drop range.start := by
  rw [tokensOf, Array.toList_extract, List.extract_eq_drop_take']

/-- The place of a token behind others and a line break. -/
theorem span_behind (lines : Nat) (row : List Token) (newline : Token) {later : List Token}
    {index : Nat} (hindex : index < later.length) :
    ((row ++ newline :: later.map (Token.down lines))[index + (row.length + 1)]?.map
        Token.span).getD ⟨.start, .start⟩ =
      Span.down lines ((later[index]?.map Token.span).getD ⟨.start, .start⟩) := by
  have hbehind : index + (row.length + 1) - row.length = index + 1 := by omega
  rw [List.getElem?_append_right (by omega), hbehind, List.getElem?_cons_succ, List.getElem?_map,
    List.getElem?_eq_getElem hindex]
  rfl

/-- What holds of every script that was read: its expressions lie before the end of input, and its
tokens are in order. -/
structure Sound (script : Script) : Prop where
  size_pos : 0 < script.tokens.size
  inside : ∀ e ∈ script.expressions, Expr.Inside (script.tokens.size - 1) e
  ordered : script.tokens.toList.Pairwise Token.Precedes

/-- A script that is made of two, the second of which begins so many lines further down. -/
structure Joined (lines : Nat) (first second whole : Script) : Prop where
  /-- The end of the first script is a line break. -/
  tokens : ∃ place, whole.tokens.toList = first.tokens.toList.dropLast ++
    Token.newlineAt place :: second.tokens.toList.map (Token.down lines)
  expressions : whole.expressions =
    first.expressions ++ second.expressions.map (Expr.renumber (.shift first.tokens.size))

theorem Sound.inside_of_mem {script : Script} (h : script.Sound) {node : Expr}
    (hnode : node ∈ script.nodes) : Expr.Inside (script.tokens.size - 1) node := by
  obtain ⟨e, he, hmem⟩ := List.mem_flatMap.mp hnode
  exact (h.inside e he).of_mem_preorder hmem

theorem apply_target {α β : Type} (f : α → β) (operator : AssignOperator) (left right : α) :
    f (operator.target left right) = operator.target (f left) (f right) := by
  unfold AssignOperator.target
  split <;> rfl

theorem apply_value {α β : Type} (f : α → β) (operator : AssignOperator) (left right : α) :
    f (operator.value left right) = operator.value (f left) (f right) := by
  unfold AssignOperator.value
  split <;> rfl

theorem text_down (lines : Nat) (tokens : List Token) :
    ((tokens.map (Token.down lines)).filter fun token => !token.isTrivia).map
        (fun token => token.text) =
      (tokens.filter fun token => !token.isTrivia).map fun token => token.text := by
  rw [List.filter_map, List.map_map]
  rfl

namespace Joined

variable {lines : Nat} {first second whole : Script} (h : Joined lines first second whole)
include h

theorem nodes :
    whole.nodes = first.nodes ++ second.nodes.map (Expr.renumber (.shift first.tokens.size)) := by
  simp only [Script.nodes, Expr.preorderAll, h.expressions, List.flatMap_append, List.flatMap_map,
    List.map_flatMap, Expr.preorder_renumber]

/-! ### What stands in the first script -/

theorem spanAt_first {index : Nat} (hindex : index < first.tokens.size - 1) :
    spanAt whole.tokens index = spanAt first.tokens index := by
  obtain ⟨place, htokens⟩ := h.tokens
  have hlength : index < first.tokens.toList.dropLast.length := by simpa using hindex
  rw [spanAt_eq, spanAt_eq, htokens, List.getElem?_append_left hlength, List.getElem?_dropLast,
    if_pos (by simpa using hindex)]

theorem tokensOf_first {range : TokenRange} (hrange : range.stop ≤ first.tokens.size - 1) :
    whole.tokensOf range = first.tokensOf range := by
  obtain ⟨place, htokens⟩ := h.tokens
  have hlength : range.stop ≤ first.tokens.toList.dropLast.length := by simpa using hrange
  have htake : whole.tokens.toList.take range.stop = first.tokens.toList.take range.stop := by
    rw [htokens, List.take_append_of_le_length hlength, List.dropLast_eq_take, List.take_take]
    rw [List.length_dropLast] at hlength
    rw [Nat.min_eq_left hlength]
  rw [tokensOf_eq, tokensOf_eq, htake]

variable {e : Expr} (he : Expr.Inside (first.tokens.size - 1) e)
include he

theorem span_first : whole.span e = first.span e := by
  have hwithin := (Expr.inside_iff.mp he).1
  have hstop : e.range.stop - 1 < first.tokens.size - 1 :=
    Nat.lt_of_lt_of_le (Nat.sub_lt hwithin.stop_pos Nat.one_pos) hwithin.stop
  simp only [span, spanOf, h.spanAt_first hwithin.start, h.spanAt_first hstop]

theorem text_first : whole.text e = first.text e := by
  rw [text, text, h.tokensOf_first (Expr.inside_iff.mp he).1.stop]

theorem assignment?_first : whole.assignment? e = first.assignment? e := by
  obtain ⟨hwithin, hchildren⟩ := Expr.inside_iff.mp he
  cases hform : e.form with
  | assign operator place left right =>
    have hplace := hwithin.place place (by rw [hform]; rfl)
    have hvalue : Expr.Inside (first.tokens.size - 1) (operator.value left right) := by
      refine hchildren _ ?_
      rw [Expr.children, hform, AssignOperator.value]
      split <;> simp [Form.children]
    simp only [assignment?, hform, h.spanAt_first hplace, h.text_first hvalue]
  | _ => simp only [assignment?, hform]

theorem callSite?_first : whole.callSite? e = first.callSite? e := by
  obtain ⟨-, hchildren⟩ := Expr.inside_iff.mp he
  cases hform : e.form with
  | call callee arguments =>
    have hcallee := hchildren callee (by rw [Expr.children, hform]; exact List.mem_cons_self)
    simp only [callSite?, hform, h.span_first hcallee]
  | _ => simp only [callSite?, hform]

end Joined

/-! ### What stands in the second script -/

namespace Joined

variable {lines : Nat} {first second whole : Script} (h : Joined lines first second whole)
  (hfirst : first.Sound)
include h hfirst

theorem spanAt_second {index : Nat} (hindex : index < second.tokens.size) :
    spanAt whole.tokens (index + first.tokens.size) = (spanAt second.tokens index).down lines := by
  obtain ⟨place, htokens⟩ := h.tokens
  have hsize := hfirst.size_pos
  have hlength : first.tokens.size = first.tokens.toList.dropLast.length + 1 := by
    simp only [List.length_dropLast, Array.length_toList]
    omega
  rw [spanAt_eq, spanAt_eq, htokens, hlength]
  exact span_behind lines _ _ (by simpa using hindex)

theorem tokensOf_second (range : TokenRange) :
    whole.tokensOf (Renumbering.range (.shift first.tokens.size) range) =
      (second.tokensOf range).map (Token.down lines) := by
  obtain ⟨place, htokens⟩ := h.tokens
  have hsize := hfirst.size_pos
  have hlength : first.tokens.size =
      (first.tokens.toList.dropLast ++ [Token.newlineAt place]).length := by
    simp only [List.length_append, List.length_dropLast, Array.length_toList, List.length_singleton]
    omega
  have hsplit : whole.tokens.toList = (first.tokens.toList.dropLast ++ [Token.newlineAt place]) ++
      second.tokens.toList.map (Token.down lines) := by rw [htokens, List.append_assoc]; rfl
  simp only [tokensOf_eq, Renumbering.range, Renumbering.shift, hsplit, List.map_drop, List.map_take]
  rw [hlength, Nat.add_comm range.stop, Nat.add_comm range.start, List.take_length_add_append,
    List.drop_length_add_append]

theorem text_second (e : Expr) :
    whole.text (e.renumber (.shift first.tokens.size)) = second.text e := by
  rw [text, text, Expr.range_renumber, h.tokensOf_second hfirst, text_down]

variable {e : Expr} (he : Expr.Inside (second.tokens.size - 1) e)
include he

theorem span_second :
    whole.span (e.renumber (.shift first.tokens.size)) = (second.span e).down lines := by
  have hwithin := (Expr.inside_iff.mp he).1
  have hstart := hwithin.start
  have hpos := hwithin.stop_pos
  have hstop := hwithin.stop
  have hlast : e.range.stop + first.tokens.size - 1 = e.range.stop - 1 + first.tokens.size := by
    omega
  simp only [span, spanOf, Expr.range_renumber, Renumbering.range, Renumbering.shift, hlast]
  rw [h.spanAt_second hfirst (show e.range.start < second.tokens.size by omega),
    h.spanAt_second hfirst (show e.range.stop - 1 < second.tokens.size by omega)]
  rfl

theorem assignment?_second :
    whole.assignment? (e.renumber (.shift first.tokens.size)) =
      (second.assignment? e).map (Assignment.later lines first.tokens.size) := by
  obtain ⟨hwithin, -⟩ := Expr.inside_iff.mp he
  have hform := Expr.form_renumber (.shift first.tokens.size) e
  cases hassign : e.form with
  | assign operator place left right =>
    rw [hassign] at hform
    have hplace : place < second.tokens.size :=
      Nat.lt_of_lt_of_le (hwithin.place place (by rw [hassign]; rfl)) (Nat.sub_le _ _)
    have hspan : spanAt whole.tokens ((Renumbering.shift first.tokens.size).token place) =
        (spanAt second.tokens place).down lines := h.spanAt_second hfirst hplace
    simp only [assignment?, hassign, hform, Form.map, hspan]
    rw [← apply_target, ← apply_value, Expr.identifier?_renumber, Option.map_map,
      h.text_second hfirst]
    rfl
  | _ =>
    rw [hassign] at hform
    simp only [assignment?, hassign, hform, Form.map, Option.map_none]

theorem callSite?_second :
    whole.callSite? (e.renumber (.shift first.tokens.size)) =
      (second.callSite? e).map (CallSite.down lines) := by
  obtain ⟨-, hchildren⟩ := Expr.inside_iff.mp he
  have hform := Expr.form_renumber (.shift first.tokens.size) e
  cases hcall : e.form with
  | call callee arguments =>
    rw [hcall] at hform
    have hcallee := hchildren callee (by rw [Expr.children, hcall]; exact List.mem_cons_self)
    have hname := Expr.form_renumber (.shift first.tokens.size) callee
    simp only [callSite?, hcall, hform, Form.map, hname, h.span_second hfirst hcallee,
      List.length_map]
    cases callee.form <;> rfl
  | _ =>
    rw [hcall] at hform
    simp only [callSite?, hcall, hform, Form.map, Option.map_none]

end Joined

/-! ### What is listed by place -/

theorem start_before_start {tokens : Array Token} (h : tokens.toList.Pairwise Token.Precedes)
    {i j : Nat} (hij : i < j) (hj : j < tokens.size) :
    (spanAt tokens i).start.Before (spanAt tokens j).start := by
  have hbefore := (List.pairwise_iff_getElem.mp h i j (by simpa using Nat.lt_trans hij hj)
    (by simpa using hj) hij).1
  rwa [spanAt_eq_span (Array.getElem?_eq_getElem (Nat.lt_trans hij hj)),
    spanAt_eq_span (Array.getElem?_eq_getElem hj)]

theorem start_le_start {tokens : Array Token} (h : tokens.toList.Pairwise Token.Precedes) {i j : Nat}
    (hij : i < j) (hj : j < tokens.size) :
    (spanAt tokens i).start.le (spanAt tokens j).start = true := by
  rw [Position.le_iff]
  rcases start_before_start h hij hj with hline | ⟨hline, hcolumn⟩
  · exact .inl hline
  · exact .inr ⟨hline, Nat.le_of_lt hcolumn⟩

/-- An assignment stands at its operator. -/
theorem place_assignment? {script : Script} {e : Expr} {assignment : Assignment}
    (h : script.assignment? e = some assignment) :
    ∃ i ∈ e.form.place?, assignment.place = (spanAt script.tokens i).start := by
  cases hform : e.form with
  | assign operator place left right =>
    simp only [assignment?, hform, Option.map_eq_some_iff] at h
    obtain ⟨name, -, rfl⟩ := h
    exact ⟨place, rfl, rfl⟩
  | _ =>
    simp only [assignment?, hform] at h
    cases h

/-- A call stands where its function is named. -/
theorem place_callSite? {script : Script} {e : Expr} {site : CallSite}
    (h : script.callSite? e = some site) :
    ∃ callee ∈ e.children, site.place = (spanAt script.tokens callee.range.start).start := by
  cases hform : e.form with
  | call callee arguments =>
    refine ⟨callee, by rw [Expr.children, hform]; exact List.mem_cons_self, ?_⟩
    simp only [callSite?, hform] at h
    split at h
    · cases h
      rfl
    · cases h
      rfl
    · cases h
  | _ =>
    simp only [callSite?, hform] at h
    cases h

namespace Joined

variable {lines : Nat} {first second whole : Script} (h : Joined lines first second whole)
  (hfirst : first.Sound) (hwhole : whole.Sound)
include h hfirst hwhole

/-- What is read off the nodes of the two scripts and listed by place is listed one by one. -/
theorem listed_append {α : Type} (place : α → Position) {later : α → α}
    {ofFirst ofSecond ofWhole : Expr → Option α}
    (hplace : ∀ a, place (later a) = (place a).down lines)
    (hofFirst : ∀ e ∈ first.nodes, ofWhole e = ofFirst e ∧
      ∀ a ∈ ofFirst e, ∃ i < first.tokens.size - 1, place a = (spanAt first.tokens i).start)
    (hofSecond : ∀ e ∈ second.nodes,
      ofWhole (e.renumber (.shift first.tokens.size)) = (ofSecond e).map later ∧
      ∀ a ∈ ofSecond e, ∃ i < second.tokens.size, place a = (spanAt second.tokens i).start) :
    ((whole.nodes.filterMap ofWhole).mergeSort fun a b => (place a).le (place b)) =
      ((first.nodes.filterMap ofFirst).mergeSort fun a b => (place a).le (place b)) ++
        ((second.nodes.filterMap ofSecond).mergeSort fun a b => (place a).le (place b)).map
          later := by
  have hsize : whole.tokens.size = first.tokens.size + second.tokens.size := by
    obtain ⟨place, htokens⟩ := h.tokens
    have hpos := hfirst.size_pos
    have hlength := congrArg List.length htokens
    simp only [Array.length_toList, List.length_append, List.length_dropLast, List.length_cons,
      List.length_map] at hlength
    omega
  have hnodes : whole.nodes.filterMap ofWhole =
      first.nodes.filterMap ofFirst ++ (second.nodes.filterMap ofSecond).map later := by
    rw [h.nodes, List.filterMap_append, List.filterMap_map, List.map_filterMap]
    congr 1
    · exact List.filterMap_congr fun e he => (hofFirst e he).1
    · exact List.filterMap_congr fun e he => (hofSecond e he).1
  have htrans (a b c : α) (hab : (place a).le (place b) = true)
      (hbc : (place b).le (place c) = true) : (place a).le (place c) = true :=
    Position.le_trans hab hbc
  have htotal (a b : α) : ((place a).le (place b) || (place b).le (place a)) = true :=
    Position.le_total _ _
  have hmap := List.map_mergeSort (r := fun a b => (place a).le (place b))
    (s := fun a b => (place a).le (place b)) (f := later) (l := second.nodes.filterMap ofSecond)
    fun a _ b _ => by rw [hplace, hplace, Position.le_down]
  rw [hnodes, hmap]
  -- Everything is placed at a token, and the tokens of the first script begin before the others.
  refine mergeSort_append htrans htotal ?_
  intro a ha b hb
  obtain ⟨e, he, ha⟩ := List.mem_filterMap.mp ha
  obtain ⟨i, hi, hia⟩ := (hofFirst e he).2 a ha
  obtain ⟨b', hb', rfl⟩ := List.mem_map.mp hb
  obtain ⟨e', he', hb'⟩ := List.mem_filterMap.mp hb'
  obtain ⟨j, hj, hjb⟩ := (hofSecond e' he').2 b' hb'
  have hlater : (spanAt second.tokens j).start.down lines =
      (spanAt whole.tokens (j + first.tokens.size)).start := by
    rw [h.spanAt_second hfirst hj]
    rfl
  rw [hplace, hia, hjb, hlater, ← h.spanAt_first hi]
  exact start_le_start hwhole.ordered (by omega) (by omega)

variable (hsecond : second.Sound)
include hsecond

/-- The assignments of the whole are those of the first script and then those of the second. -/
theorem assignments : whole.assignments =
    first.assignments ++ second.assignments.map (Assignment.later lines first.tokens.size) := by
  refine h.listed_append hfirst hwhole Assignment.place (fun _ => rfl) ?_ ?_
  · intro e he
    have hinside := hfirst.inside_of_mem he
    refine ⟨h.assignment?_first hinside, fun a ha => ?_⟩
    obtain ⟨i, hi, hplace⟩ := place_assignment? ha
    exact ⟨i, (Expr.inside_iff.mp hinside).1.place i hi, hplace⟩
  · intro e he
    have hinside := hsecond.inside_of_mem he
    refine ⟨h.assignment?_second hfirst hinside, fun a ha => ?_⟩
    obtain ⟨i, hi, hplace⟩ := place_assignment? ha
    have hlt := (Expr.inside_iff.mp hinside).1.place i hi
    exact ⟨i, Nat.lt_of_lt_of_le hlt (Nat.sub_le _ _), hplace⟩

/-- The calls of the whole are those of the first script and then those of the second. -/
theorem callSites :
    whole.callSites = first.callSites ++ second.callSites.map (CallSite.down lines) := by
  refine h.listed_append hfirst hwhole CallSite.place (fun _ => rfl) ?_ ?_
  · intro e he
    have hinside := hfirst.inside_of_mem he
    refine ⟨h.callSite?_first hinside, fun a ha => ?_⟩
    obtain ⟨callee, hcallee, hplace⟩ := place_callSite? ha
    exact ⟨_, ((Expr.inside_iff.mp hinside).2 callee hcallee).start_lt, hplace⟩
  · intro e he
    have hinside := hsecond.inside_of_mem he
    refine ⟨h.callSite?_second hfirst hinside, fun a ha => ?_⟩
    obtain ⟨callee, hcallee, hplace⟩ := place_callSite? ha
    have hlt := ((Expr.inside_iff.mp hinside).2 callee hcallee).start_lt
    exact ⟨_, Nat.lt_of_lt_of_le hlt (Nat.sub_le _ _), hplace⟩

end Joined

/-! ### Reading -/

theorem exists_row_of_read {source : String} {script : Script} (h : read source = .ok script) :
    ∃ row : List Token, Token.scan source = .ok (row ++ [Token.endAt (.behind source.toList)]) ∧
      script.tokens = (row ++ [Token.endAt (.behind source.toList)]).toArray ∧
      (∀ lexeme ∈ row.map Token.toLexeme, lexeme.kind ≠ .endOfInput) ∧
      Expr.readAll (row.map Token.toLexeme ++ [.endOfInput]) = .ok script.expressions := by
  unfold read at h
  split at h
  · next tokens hscan =>
    obtain ⟨row, rfl, hkinds⟩ := Token.scan_row hscan
    obtain ⟨htokens, hexpressions⟩ := ofTokens_eq_ok_iff.mp h
    rw [List.map_append] at hexpressions
    exact ⟨row, hscan, htokens, List.forall_mem_map.mpr hkinds, hexpressions⟩
  · cases h

theorem sound_of_read {source : String} {script : Script} (h : read source = .ok script) :
    script.Sound := by
  obtain ⟨row, hscan, htokens, hrow, hread⟩ := exists_row_of_read h
  have hsize : script.tokens.size = row.length + 1 := by rw [htokens]; simp
  have hinside := Expr.inside_readAll hrow hread
  rw [List.length_map] at hinside
  constructor
  · omega
  · rwa [hsize, Nat.add_sub_cancel]
  · rw [htokens]
    exact (Token.scanFrom_ordered hscan).2

/-- What some tokens are read as behind a row that can be read and a line break. -/
theorem ofTokens_append {row later : List Token} {newline : Token} {es : List Expr} (lines : Nat)
    (hnewline : newline.kind = .newline)
    (hrow : ∀ lexeme ∈ row.map Token.toLexeme, lexeme.kind ≠ .endOfInput)
    (hread : Expr.readAll (row.map Token.toLexeme ++ [.endOfInput]) = .ok es)
    (hlater : ∀ refusal, Expr.readAll (later.map Token.toLexeme) = .error refusal →
      refusal.index < later.length) :
    ofTokens (row ++ newline :: later.map (Token.down lines)) =
      match ofTokens later with
      | .ok second => .ok ⟨(row ++ newline :: later.map (Token.down lines)).toArray,
          es ++ second.expressions.map (Expr.renumber (.shift (row.length + 1)))⟩
      | .error fault => .error (fault.down lines) := by
  have hlexemes : (row ++ newline :: later.map (Token.down lines)).map Token.toLexeme =
      row.map Token.toLexeme ++ newline.toLexeme :: later.map Token.toLexeme := by
    rw [List.map_append, List.map_cons, List.map_map]
    rfl
  have happend := Expr.readAll_append hrow (later.map Token.toLexeme) hnewline hread
  rw [List.length_map] at happend
  simp only [ofTokens, hlexemes, happend]
  cases hothers : Expr.readAll (later.map Token.toLexeme) with
  | ok es' => rfl
  | error refusal =>
    have hspan := span_behind lines row newline (hlater refusal hothers)
    refine congrArg (fun place => Except.error (Fault.mk (.unexpected refusal.found) place)) ?_
    show (spanAt _ (refusal.index + (row.length + 1))).start =
      (spanAt later.toArray refusal.index).start.down lines
    rw [spanAt_eq, spanAt_eq]
    exact congrArg Span.start hspan

/-- **A script, a line feed and another text.**  The whole is a script just if the other text is one,
and then it is made of the two. If the other text is none, the whole is none for the same reason, at
the same place so many lines further down. -/
theorem read_append_newline {a b : String} {first : Script} (ha : read a = .ok first)
    (hend : a.toList.getLast? ≠ some '\r') :
    match read b with
    | .ok second =>
      ∃ whole, read (a ++ "\n" ++ b) = .ok whole ∧
        Joined (lineBreaks a.toList + 1) first second whole
    | .error fault => read (a ++ "\n" ++ b) = .error (fault.down (lineBreaks a.toList + 1)) := by
  obtain ⟨row, hscan, htokens, hrow, hread⟩ := exists_row_of_read ha
  have hwhole := Token.scan_append_newline (b := b) hscan hend
  -- The other text can fail in two ways: it has no tokens, or nothing is read from them.
  cases hb : Token.scan b with
  | error fault =>
    rw [hb] at hwhole
    have hreadb : read b = .error fault := by simp only [read, hb]
    have hreads : read (a ++ "\n" ++ b) = .error (fault.down (lineBreaks a.toList + 1)) := by
      simp only [read, hwhole]
      rfl
    rw [hreadb]
    exact hreads
  | ok later =>
    rw [hb] at hwhole
    have hreadb : read b = ofTokens later := by simp only [read, hb]
    have hreads : read (a ++ "\n" ++ b) = ofTokens (row ++ Token.newlineAt (.behind a.toList) ::
        later.map (Token.down (lineBreaks a.toList + 1))) := by
      simp only [read, hwhole]
      rfl
    rw [hreadb, hreads,
      ofTokens_append _ rfl hrow hread fun _ hrefusal => index_lt_of_scan hb hrefusal]
    cases hsecond : ofTokens later with
    | error fault => rfl
    | ok second =>
      have htokens' := (ofTokens_eq_ok_iff.mp hsecond).1
      refine ⟨_, rfl, ⟨⟨.behind a.toList, ?_⟩, ?_⟩⟩
      · rw [htokens, htokens', List.dropLast_concat]
      · rw [htokens]
        simp

end Script
end TypeDrift
