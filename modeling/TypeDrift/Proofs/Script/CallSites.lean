import TypeDrift.Proofs.Script.Operators
import TypeDrift.Script.CallSite

/-! # Call sites and called symbols

Calls of named functions are found twice.  A parse table marks the last token of the name of the
function, if it is a symbol; and the call sites are collected and sorted by the places where the names
begin.  This module shows that both find the same calls in the same order (`callSites_marked`).

The reason is that the names of called functions follow one another: of a call and another one in its
parts the first has its name before all of its arguments, and a name has no parts
(`Expr.Laid.callees_increase`).  So the walk over all expressions comes by the calls in the order of
their names, by which end of these one may go.
-/
namespace TypeDrift

namespace Expr

/-- The name of the function that an expression calls: a bare one, or one of a package. -/
def callee? (e : Expr) : Option Expr :=
  match e.form with
  | .call callee _ =>
    match callee.form with
    | .identifier _ | .namespaced .. => some callee
    | _ => none
  | _ => none

/-- The name of the function that the first expression calls ends before that of the second. -/
def CalleeBefore (a b : Expr) : Prop :=
  ∀ c ∈ a.callee?, ∀ d ∈ b.callee?, c.range.stop ≤ d.range.start

variable {row : List Lexeme} {e callee : Expr} {es : List Expr} {lo hi : Nat}

theorem exists_call_of_callee? (h : callee ∈ e.callee?) : ∃ arguments,
    e.form = .call callee arguments ∧ callee.children = [] ∧ callee.callee? = none := by
  unfold callee? at h
  split at h
  · next callee' arguments hform =>
    split at h <;> cases h
    all_goals
      next hname => exact ⟨arguments, hform, by rw [children, hname]; rfl, by rw [callee?, hname]⟩
  · cases h

theorem mem_children_of_callee? (h : callee ∈ e.callee?) : callee ∈ e.children := by
  obtain ⟨arguments, hform, -⟩ := exists_call_of_callee? h
  rw [children, hform]
  exact List.mem_cons_self

/-- The name of a function that is called in an expression stands in it. -/
theorem Tiled.callee_sub (h : e.Tiled row) {node : Expr} (hnode : node ∈ e.preorder)
    (hcallee : callee ∈ node.callee?) : callee.range.Sub e.range := by
  have hinside := (tiled_iff.mp (h.of_mem_preorder hnode)).1.inside
  exact TokenRange.Sub.trans (hinside callee (mem_children_of_callee? hcallee)) (h.sub node hnode)

theorem callees_increase_parts (htiled : ∀ e ∈ es, e.Tiled row)
    (hordered : es.Pairwise fun a b => a.range.stop ≤ b.range.start)
    (hparts : ∀ e ∈ es, e.preorder.Pairwise CalleeBefore) :
    (preorderAll es).Pairwise CalleeBefore := by
  refine List.pairwise_flatMap.mpr ⟨hparts, List.Pairwise.imp_of_mem ?_ hordered⟩
  intro a b ha hb hle x hx y hy c hc d hd
  have hc' := ((htiled a ha).callee_sub hx hc).2
  have hd' := ((htiled b hb).callee_sub hy hd).1
  omega

theorem Tiled.callees_increase (h : e.Tiled row) : e.preorder.Pairwise CalleeBefore := by
  induction e using induction_children with
  | step e ih =>
    obtain ⟨hlaid, htiled⟩ := tiled_iff.mp h
    rw [preorder_eq]
    refine .cons (fun node hnode c hc d hd => ?_) (callees_increase_parts htiled hlaid.ordered
      fun child hchild => ih child hchild (htiled child hchild))
    obtain ⟨arguments, hform, hleaf, hnone⟩ := exists_call_of_callee? hc
    have hchildren : e.children = c :: arguments.filterMap Argument.value := by
      rw [children, hform]
      rfl
    have hordered := hlaid.ordered
    rw [hchildren, List.pairwise_cons] at hordered
    obtain ⟨child, hchild, hnode⟩ := List.mem_flatMap.mp hnode
    rcases List.mem_cons.mp (hchildren ▸ hchild) with rfl | hargument
    · -- A name is no call, and has no parts that could be one.
      rw [preorder_eq, hleaf] at hnode
      rw [List.mem_singleton.mp hnode, hnone] at hd
      cases hd
    · have hbehind := hordered.1 child hargument
      have hinside := ((htiled child hchild).callee_sub hnode hd).1
      omega

/-- **The names of called functions follow one another.** -/
theorem Laid.callees_increase (h : Laid row lo hi es) :
    (preorderAll es).Pairwise CalleeBefore :=
  callees_increase_parts h.tiled h.ordered fun e he => (h.tiled e he).callees_increase

end Expr

theorem Kind.tableName_ne_call (kind : Kind) : kind.tableName ≠ "SYMBOL_FUNCTION_CALL" := by
  cases kind with
  | keyword word => cases word <;> decide
  | string => simp [tableName]
  | _ => decide

/-- Two lists with the same increasing numbers, element by element. -/
theorem forall₂_of_map_eq_filterMap {α β γ : Type} {R : α → β → Prop} {id : α → Nat}
    {number : γ → Option Nat} {f : γ → Option β} {rows : List α} {l : List γ}
    (heq : rows.map id = l.filterMap number) (hnone : ∀ c ∈ l, number c = none → f c = none)
    (hsome : ∀ c ∈ l, ∀ i ∈ number c, ∃ b, f c = some b ∧ ∀ a ∈ rows, id a = i → R a b) :
    List.Forall₂ R rows (l.filterMap f) := by
  induction l generalizing rows with
  | nil =>
    rw [List.map_eq_nil_iff.mp heq]
    exact .nil
  | cons c l ih =>
    obtain ⟨hnone, hnone'⟩ := List.forall_mem_cons.mp hnone
    obtain ⟨hsome, hsome'⟩ := List.forall_mem_cons.mp hsome
    cases hnumber : number c with
    | none =>
      rw [List.filterMap_cons_none hnumber] at heq
      rw [List.filterMap_cons_none (hnone hnumber)]
      exact ih heq hnone' hsome'
    | some i =>
      rw [List.filterMap_cons_some hnumber] at heq
      obtain ⟨row, rows, rfl, hid, hrows⟩ := List.map_eq_cons_iff.mp heq
      obtain ⟨b, hb, hrelated⟩ := hsome i hnumber
      rw [List.filterMap_cons_some hb]
      refine .cons (hrelated row List.mem_cons_self hid) (ih hrows hnone' fun c hc i hi => ?_)
      obtain ⟨b, hb, hrelated⟩ := hsome' c hc i hi
      exact ⟨b, hb, fun a ha => hrelated a (List.mem_cons_of_mem _ ha)⟩

namespace Script

/-- The expression is a call of the form `package::"name"(…)`. -/
def namesByString (script : Script) (e : Expr) : Bool :=
  match e.form with
  | .call callee _ =>
    match callee.form with
    | .namespaced .. =>
      script.tokens[callee.range.stop - 1]?.any fun token => token.kind.isString
    | _ => false
  | _ => false

/-- The row of a called symbol, and the call site of the call whose function it names. -/
structure Marks (script : Script) (row : Row) (site : CallSite) (call callee : Expr) : Prop where
  mem : call ∈ script.nodes
  calls : callee ∈ call.callee?
  listed : script.callSite? call = some site
  /-- The row is that of the last token of the name. -/
  last : row.id = callee.range.stop
  name : Lexeme.unquoted row.text = site.callee
  /-- The site is where the first token of the name stands. -/
  place : ∃ token, script.tokens[callee.range.start]? = some token ∧ site.place = token.span.start

variable {source : String} {script : Script}

theorem calleeToken?_eq (e : Expr) :
    calleeToken? e = e.callee?.map fun callee => callee.range.stop - 1 := by
  unfold calleeToken? Expr.callee?
  cases e.form with
  | call callee arguments => cases hname : callee.form <;> simp only [hname] <;> rfl
  | _ => rfl

theorem callSite?_eq_none {e : Expr} (h : e.callee? = none) : script.callSite? e = none := by
  unfold Expr.callee? at h
  unfold callSite?
  cases hform : e.form with
  | call callee arguments => cases hname : callee.form <;> simp_all only [reduceCtorEq]
  | _ => rfl

/-- What a call site says of the name of the function. -/
theorem callSite?_of_callee? (script : Script) {e callee : Expr} (h : callee ∈ e.callee?) :
    ∃ site, script.callSite? e = some site ∧
      site.place = (spanAt script.tokens callee.range.start).start ∧
      (callee.form = .identifier site.callee ∨
        ∃ package hidden, callee.form = .namespaced package site.callee hidden) := by
  have hsite {callee' : Expr} {arguments : List (Argument Expr)} {name : String}
      (hform : e.form = .call callee' arguments)
      (hname : callee'.form = .identifier name ∨
        ∃ package hidden, callee'.form = .namespaced package name hidden) :
      script.callSite? e = some ⟨name, (script.span callee').start, arguments.length⟩ := by
    rcases hname with hname | ⟨package, hidden, hname⟩ <;> simp only [callSite?, hform, hname]
  unfold Expr.callee? at h
  split at h
  · next hform =>
    split at h
    · next name hname =>
      cases h
      exact ⟨_, hsite hform (.inl hname), rfl, .inl hname⟩
    · next package name hidden hname =>
      cases h
      exact ⟨_, hsite hform (.inr ⟨_, _, hname⟩), rfl, .inr ⟨package, hidden, hname⟩⟩
    · cases h
  · cases h

/-- The last token of the name of a called function writes the name, unless it is a string. -/
theorem exists_last_token (h : read source = .ok script) {call callee : Expr} {site : CallSite}
    (hcall : call ∈ script.nodes) (hcallee : callee ∈ call.callee?)
    (hname : callee.form = .identifier site.callee ∨
      ∃ package hidden, callee.form = .namespaced package site.callee hidden) :
    ∃ token, script.tokens[callee.range.stop - 1]? = some token ∧
      if script.namesByString call then token.kind ≠ .identifier
      else token.kind = .identifier ∧ token.name = site.callee := by
  have hnamed := (written_of_read h callee
    (mem_nodes_of_mem_children hcall (Expr.mem_children_of_callee? hcallee))).named
  obtain ⟨arguments, hform, -⟩ := Expr.exists_call_of_callee? hcallee
  have hlast {p : Lexeme → Prop} (h : ∃ lexeme ∈ script.lexemes[callee.range.stop - 1]?, p lexeme) :
      ∃ token, script.tokens[callee.range.stop - 1]? = some token ∧ p token.toLexeme := by
    obtain ⟨lexeme, hlexeme, hp⟩ := h
    rw [getElem?_lexemes] at hlexeme
    obtain ⟨token, htoken, rfl⟩ := Option.map_eq_some_iff.mp hlexeme
    exact ⟨token, htoken, hp⟩
  rcases hname with hname | ⟨package, hidden, hname⟩
  · rw [Expr.Named, hname] at hnamed
    obtain ⟨token, htoken, hidentifier⟩ := hlast hnamed
    have hstring : script.namesByString call = false := by simp only [namesByString, hform, hname]
    exact ⟨token, htoken, by rw [hstring]; exact hidentifier⟩
  · rw [Expr.Named, hname] at hnamed
    obtain ⟨token, htoken, hmember⟩ := hlast hnamed
    refine ⟨token, htoken, ?_⟩
    have hstring : script.namesByString call = token.kind.isString := by
      simp only [namesByString, hform, hname, htoken, Option.any_some]
    rw [hstring]
    unfold Expr.memberName? at hmember
    split at hmember
    · next hkind => simpa [hkind, Kind.isString] using Option.some.inj hmember
    · next hkind => simp [hkind, Kind.isString]
    · cases hmember
    · cases hmember

/-- The names of called functions end in the order of the walk. -/
theorem callee_stops_increase (h : read source = .ok script) (p : Expr → Bool) :
    ((script.nodes.filter p).filterMap fun call => call.callee?.map fun callee =>
      callee.range.stop).Pairwise (· < ·) := by
  have hincrease := List.Pairwise.and_mem.mp
    ((laid_of_read h).1.callees_increase.sublist (List.filter_sublist (p := p)))
  refine List.Pairwise.filterMap _ ?_ hincrease
  rintro a b ⟨-, hb, hbefore⟩ i hi j hj
  obtain ⟨c, hc, rfl⟩ := Option.map_eq_some_iff.mp hi
  obtain ⟨d, hd, rfl⟩ := Option.map_eq_some_iff.mp hj
  have hnonempty := (laidOut_of_read h d (mem_nodes_of_mem_children (List.mem_of_mem_filter hb)
    (Expr.mem_children_of_callee? hd))).nonempty
  exact Nat.lt_of_le_of_lt (hbefore c hc d hd) hnonempty

/-- The walk comes by the call sites in the order of their places. -/
theorem callSite_places_increase (h : read source = .ok script) :
    (script.nodes.filterMap script.callSite?).Pairwise fun a b => a.place.Before b.place := by
  have hsound := sound_of_read h
  refine List.Pairwise.filterMap _ ?_ (List.Pairwise.and_mem.mp (laid_of_read h).1.callees_increase)
  rintro a b ⟨ha, hb, hbefore⟩ site hsite site' hsite'
  cases hc : a.callee? with
  | none => rw [callSite?_eq_none hc] at hsite; cases hsite
  | some c =>
    cases hd : b.callee? with
    | none => rw [callSite?_eq_none hd] at hsite'; cases hsite'
    | some d =>
      obtain ⟨_, hfound, hplace, -⟩ := script.callSite?_of_callee? hc
      obtain ⟨_, hfound', hplace', -⟩ := script.callSite?_of_callee? hd
      cases Option.some.inj (hfound.symm.trans hsite)
      cases Option.some.inj (hfound'.symm.trans hsite')
      have hlaid := laidOut_of_read h c (mem_nodes_of_mem_children ha
        (Expr.mem_children_of_callee? hc))
      have hd' := mem_nodes_of_mem_children hb (Expr.mem_children_of_callee? hd)
      have hstop := (placed_of_laidOut (laidOut_of_read h d hd')).stop_le
      rw [hplace, hplace']
      exact start_before_start hsound.ordered
        (Nat.lt_of_lt_of_le hlaid.nonempty (hbefore c hc d hd))
        (Nat.lt_of_lt_of_le (laidOut_of_read h d hd').nonempty hstop)

/-- Sorting the call sites by place changes nothing. -/
theorem callSites_eq (h : read source = .ok script) :
    script.callSites = script.nodes.filterMap script.callSite? := by
  refine List.mergeSort_of_pairwise ((callSite_places_increase h).imp fun hbefore => ?_)
  exact Position.le_iff_before.mpr (.inl hbefore)

/-- The rows of called symbols. -/
def calledSymbols (script : Script) : List Row :=
  script.table.terminals.filter fun row => row.name == "SYMBOL_FUNCTION_CALL"

theorem calledSymbols_eq (h : read source = .ok script) :
    script.calledSymbols = (script.tokens.toList.zipIdx.filter fun token =>
      token.1.kind = .identifier ∧ token.2 ∈ script.nodes.filterMap calleeToken?).map fun token =>
        script.tokenRow (owner script.numbered token.2) token := by
  have hcallees : (script.numbered.filterMap fun node => calleeToken? node.label) =
      script.nodes.filterMap calleeToken? := by
    rw [← labels_numbered, List.filterMap_map]
    rfl
  rw [calledSymbols, terminals_eq h, tokenRows, indexed_all, List.filter_map, List.filter_filter]
  congr 1
  refine List.filter_congr fun token _ => ?_
  simp only [Function.comp_apply, tokenRow, hcallees, Lexeme.isTrivia]
  unfold terminalName
  split
  · next hcalled => simp [hcalled.1, hcalled.2, Kind.isTrivia]
  · next hcalled =>
    have hname : (token.1.kind.tableName == "SYMBOL_FUNCTION_CALL") = false :=
      beq_eq_false_iff_ne.mpr token.1.kind.tableName_ne_call
    rw [hname, decide_eq_false hcalled]
    rfl

/-- What is known of the row of a called symbol. -/
theorem mem_calledSymbols_iff (h : read source = .ok script) {row : Row} :
    row ∈ script.calledSymbols ↔ ∃ index token, script.tokens[index]? = some token ∧
      token.kind = .identifier ∧ index ∈ script.nodes.filterMap calleeToken? ∧
      row = script.tokenRow (owner script.numbered index) (token, index) := by
  rw [calledSymbols_eq h, List.mem_map]
  constructor
  · rintro ⟨⟨token, index⟩, hmem, rfl⟩
    obtain ⟨hmem, hcalled⟩ := List.mem_filter.mp hmem
    obtain ⟨hkind, hindex⟩ := of_decide_eq_true hcalled
    exact ⟨index, token, Array.getElem?_toList ▸ List.mem_zipIdx_iff_getElem?.mp hmem, hkind,
      hindex, rfl⟩
  · rintro ⟨index, token, htoken, hkind, hindex, rfl⟩
    exact ⟨(token, index), List.mem_filter.mpr
      ⟨List.mem_zipIdx_iff_getElem?.mpr (Array.getElem?_toList ▸ htoken),
        decide_eq_true ⟨hkind, hindex⟩⟩, rfl⟩

/-- A token that is marked is the last one of the name of a function that is called by a symbol. -/
theorem mem_ids_calledSymbols_iff (h : read source = .ok script) {id : Nat} :
    id ∈ script.calledSymbols.map Row.id ↔
      id ∈ (script.nodes.filter fun call => !script.namesByString call).filterMap fun call =>
        call.callee?.map fun callee => callee.range.stop := by
  have hstop {call callee : Expr} (hcall : call ∈ script.nodes) (hcallee : callee ∈ call.callee?) :
      callee.range.stop - 1 + 1 = callee.range.stop := by
    have hnonempty := (laidOut_of_read h callee
      (mem_nodes_of_mem_children hcall (Expr.mem_children_of_callee? hcallee))).nonempty
    omega
  rw [List.mem_map, List.mem_filterMap]
  constructor
  · rintro ⟨row, hrow, rfl⟩
    obtain ⟨index, token, htoken, hkind, hindex, rfl⟩ := (mem_calledSymbols_iff h).mp hrow
    obtain ⟨call, hcall, hlast⟩ := List.mem_filterMap.mp hindex
    rw [calleeToken?_eq] at hlast
    obtain ⟨callee, hcallee, rfl⟩ := Option.map_eq_some_iff.mp hlast
    obtain ⟨site, -, -, hname⟩ := script.callSite?_of_callee? hcallee
    obtain ⟨token', htoken', hwritten⟩ := exists_last_token h hcall hcallee hname
    cases Option.some.inj (htoken'.symm.trans htoken)
    refine ⟨call, List.mem_filter.mpr ⟨hcall, ?_⟩, ?_⟩
    · cases hstring : script.namesByString call with
      | false => rfl
      | true =>
        rw [hstring] at hwritten
        exact absurd hkind hwritten
    · rw [hcallee, Option.map_some]
      exact congrArg some (hstop hcall hcallee).symm
  · rintro ⟨call, hcall, hlast⟩
    obtain ⟨hcall, hstring⟩ := List.mem_filter.mp hcall
    obtain ⟨callee, hcallee, rfl⟩ := Option.map_eq_some_iff.mp hlast
    obtain ⟨site, -, -, hname⟩ := script.callSite?_of_callee? hcallee
    obtain ⟨token, htoken, hwritten⟩ := exists_last_token h hcall hcallee hname
    have hsymbol : script.namesByString call = false := by simpa using hstring
    rw [hsymbol] at hwritten
    refine ⟨_, (mem_calledSymbols_iff h).mpr ⟨_, token, htoken, hwritten.1, ?_, rfl⟩,
      hstop hcall hcallee⟩
    refine List.mem_filterMap.mpr ⟨call, hcall, ?_⟩
    rw [calleeToken?_eq, hcallee, Option.map_some]

/-- Marked tokens and calls by a symbol are in the same order. -/
theorem ids_calledSymbols (h : read source = .ok script) :
    script.calledSymbols.map Row.id =
      (script.nodes.filter fun call => !script.namesByString call).filterMap fun call =>
        call.callee?.map fun callee => callee.range.stop := by
  have hrows : (script.calledSymbols.map Row.id).Pairwise (· < ·) := by
    have hincrease := script.indexed_increasing 0 script.tokens.size
    rw [indexed_all] at hincrease
    rw [calledSymbols_eq h, List.map_map]
    exact List.pairwise_map.mpr
      ((hincrease.sublist List.filter_sublist).imp Nat.succ_lt_succ)
  have hcalls := callee_stops_increase h fun call => !script.namesByString call
  have hperm := (List.perm_ext_iff_of_nodup (hrows.imp Nat.ne_of_lt)
    (hcalls.imp Nat.ne_of_lt)).mpr fun _ => mem_ids_calledSymbols_iff h
  exact hperm.eq_of_pairwise (fun _ _ _ _ hlt hgt => absurd hgt (Nat.lt_asymm hlt)) hrows hcalls

/-- A row at the end of the name of a called function marks its call site. -/
theorem marks_of_id (h : read source = .ok script) {row : Row} {call callee : Expr}
    {site : CallSite} (hrow : row ∈ script.calledSymbols) (hcall : call ∈ script.nodes)
    (hcallee : callee ∈ call.callee?) (hsite : script.callSite? call = some site)
    (hid : row.id = callee.range.stop) : script.Marks row site call callee := by
  obtain ⟨index, token, htoken, hkind, -, rfl⟩ := (mem_calledSymbols_iff h).mp hrow
  obtain ⟨_, hfound, hplace, hname⟩ := script.callSite?_of_callee? hcallee
  cases Option.some.inj (hfound.symm.trans hsite)
  obtain ⟨token', htoken', hwritten⟩ := exists_last_token h hcall hcallee hname
  have hindex : callee.range.stop - 1 = index := by rw [← hid]; exact Nat.add_sub_cancel ..
  rw [hindex, htoken] at htoken'
  cases htoken'
  have hsymbol : token.name = site.callee := by
    split at hwritten
    · exact absurd hkind hwritten
    · exact hwritten.2
  have hlaid := laidOut_of_read h callee
    (mem_nodes_of_mem_children hcall (Expr.mem_children_of_callee? hcallee))
  obtain ⟨first, -, hfirst, -⟩ := (placed_of_laidOut hlaid).ends
  refine ⟨hcall, hcallee, hsite, hid, hsymbol, first, hfirst, ?_⟩
  rw [hplace, spanAt_eq_span hfirst]

/-- **The parse table marks the calls that the call sites are.**  The call sites are those of all
calls of named functions, at increasing places, in the order in which a walk comes by the calls.  The
symbols that the table marks are the last tokens of the names of the functions, one for each call
site and in the same order, but for the calls of the form `package::"name"(…)`, which end in no
symbol. -/
theorem callSites_marked (h : read source = .ok script) :
    script.callSites = script.nodes.filterMap script.callSite? ∧
      script.callSites.Pairwise (fun a b => a.place.Before b.place) ∧
      List.Forall₂ (fun row site => ∃ call callee, script.Marks row site call callee)
        script.calledSymbols
        ((script.nodes.filter fun call => !script.namesByString call).filterMap
          script.callSite?) := by
  have hsites := callSites_eq h
  refine ⟨hsites, hsites ▸ callSite_places_increase h, ?_⟩
  refine forall₂_of_map_eq_filterMap (ids_calledSymbols h) (fun call _ hnone => ?_)
    fun call hcall i hi => ?_
  · exact callSite?_eq_none (Option.map_eq_none_iff.mp hnone)
  · obtain ⟨callee, hcallee, rfl⟩ := Option.map_eq_some_iff.mp hi
    obtain ⟨site, hsite, -⟩ := script.callSite?_of_callee? hcallee
    exact ⟨site, hsite, fun row hrow hid =>
      ⟨call, callee, marks_of_id h hrow (List.mem_of_mem_filter hcall) hcallee hsite hid⟩⟩

/-- Calls in the arguments of a call and of a call of a call, piped ones, backticks, names of
packages, and a name of a package that is a string. -/
theorem callSites_marked_nested :
    ∃ script, read "f(g(1), `h i`())(a::b(x)) |> k(a:::'c'(2))\n(\nm)(n::\n'o'(), p::`q`(r(s)))" =
        .ok script ∧
      script.callSites = script.nodes.filterMap script.callSite? ∧
      script.callSites.Pairwise (fun a b => a.place.Before b.place) ∧
      List.Forall₂ (fun row site => ∃ call callee, script.Marks row site call callee)
        script.calledSymbols
        ((script.nodes.filter fun call => !script.namesByString call).filterMap
          script.callSite?) := by
  obtain ⟨script, hread⟩ := exists_read_of_isOk
    (show (read "f(g(1), `h i`())(a::b(x)) |> k(a:::'c'(2))\n(\nm)(n::\n'o'(), p::`q`(r(s)))").isOk =
      true by decide +kernel)
  exact ⟨script, hread, callSites_marked hread⟩

end Script
end TypeDrift
