import TypeDrift.Proofs.Guarded.Reading
import TypeDrift.Proofs.Guarded.Scan
import TypeDrift.Proofs.Script.Table
import TypeDrift.Script.Assignment
import TypeDrift.Script.CallSite

/-! # Guarded scripts

Reading a text, and what is read off a script: its table, its assignments and its calls.  Here the
indices are those that expressions hold.  The first and the last token of an expression are looked
up, the last one before the end of its range; so is the token of an operator; and the table keeps
for every token which expression owns it, by the index of the token.

An expression of a script that was read lies before the end of input (`Script.Sound`), and its range
does not end at zero.  So all of these are found.
-/
namespace TypeDrift

namespace Guarded

variable {ε α β : Type}

theorem mapM_eq_ok {f : α → Guarded ε β} {g : α → β} {l : List α} (h : ∀ a ∈ l, f a = .ok (g a)) :
    l.mapM f = .ok (l.map g) := by
  induction l with
  | nil => rfl
  | cons a l ih =>
    obtain ⟨ha, hl⟩ := List.forall_mem_cons.mp h
    rw [List.mapM_cons, ha, ok_bind, ih hl]
    rfl

/-! ## Reading -/

/-- The place of a token, by its index. -/
def spanAt (tokens : Array Token) (index : Nat) : Guarded ε Span := do
  let token ← found tokens[index]?
  .ok token.span

/-- The script of some tokens.  A refused lexeme is a fault at the place of its token. -/
def ofTokens (tokens : List Token) : Guarded Fault Script :=
  match Spot.readAll (tokens.map Token.toLexeme) with
  | .ok expressions => .ok ⟨tokens.toArray, expressions⟩
  | .error (.refused refusal) => do
    let span ← spanAt tokens.toArray refusal.index
    .error (.refused ⟨.unexpected refusal.found, span.start⟩)
  | .error .outOfRange => .error .outOfRange
  | .error .endless => .error .endless

/-- The script that a text is. -/
def read (source : String) : Guarded Fault Script := do
  let tokens ← scan source
  ofTokens tokens

/-! ## What is read off a script -/

/-- The index before another one. -/
def before (index : Nat) : Guarded ε Nat :=
  if index = 0 then .error .outOfRange else .ok (index - 1)

/-- Where an expression stands. -/
def span (script : Script) (e : Expr) : Guarded ε Span := do
  let first ← spanAt script.tokens e.range.start
  let stop ← before e.range.stop
  let last ← spanAt script.tokens stop
  .ok ⟨first.start, last.stop⟩

/-- The row of an expression. -/
def expressionRow (script : Script) (node : Numbered Expr) : Guarded ε Row := do
  let span ← span script node.label
  .ok { script.expressionRow node with span }

/-- The owners of the tokens, where an expression takes over those in its range. -/
def takeOver (owners : List Nat) (node : Numbered Expr) : List Nat :=
  owners.mapIdx fun index owner => if node.label.range.contains index then node.id else owner

/-- The index of the token that names the function of a call.  There has to be one. -/
def calleeToken? (script : Script) (e : Expr) : Guarded ε (Option Nat) :=
  match e.form with
  | .call callee _ =>
    match callee.form with
    | .identifier _ | .namespaced .. => do
      let index ← before callee.range.stop
      let _ ← found script.tokens[index]?
      .ok (some index)
    | _ => .ok none
  | _ => .ok none

/-- The row of a token, if it is written out. -/
def terminalRow? (owners callees : List Nat) (token : Token) (index : Nat) :
    Guarded ε (Option Row) :=
  if token.isTrivia then .ok none
  else do
    let parent ← found owners[index]?
    .ok (some
      { id := index + 1
        parent
        name := Script.terminalName callees index token.kind
        text := token.text
        span := token.span
        terminal := true })

/-- The parse table of a script. -/
def table (script : Script) : Guarded ε Table := do
  let nodes := script.numbered
  let owners := nodes.foldl takeOver (List.replicate script.tokens.size 0)
  let callees ← nodes.mapM fun node => calleeToken? script node.label
  let rows ← nodes.mapM (expressionRow script)
  let terminals ← script.tokens.toList.zipIdx.mapM fun token =>
    terminalRow? owners (callees.filterMap id) token.1 token.2
  .ok ⟨(rows ++ terminals.filterMap id).mergeSort Row.le⟩

/-- The assignment that an expression is, if it is one of a bare name. -/
def assignment? (script : Script) (e : Expr) : Guarded ε (Option Assignment) :=
  match e.form with
  | .assign operator index left right =>
    match (operator.target left right).identifier? with
    | none => .ok none
    | some name => do
      let span ← spanAt script.tokens index
      let value := operator.value left right
      .ok (some { name, place := span.start, operator, text := script.text value, value })
  | _ => .ok none

/-- The assignments of a script. -/
def assignments (script : Script) : Guarded ε (List Assignment) := do
  let all ← script.nodes.mapM (assignment? script)
  .ok ((all.filterMap id).mergeSort fun a b => a.place.le b.place)

/-- The call site that an expression is, if it calls a named function. -/
def callSite? (script : Script) (e : Expr) : Guarded ε (Option CallSite) :=
  match e.form with
  | .call callee given =>
    match callee.form with
    | .identifier name | .namespaced _ name _ => do
      let span ← span script callee
      .ok (some ⟨name, span.start, given.length⟩)
    | _ => .ok none
  | _ => .ok none

/-- The call sites of a script. -/
def callSites (script : Script) : Guarded ε (List CallSite) := do
  let all ← script.nodes.mapM (callSite? script)
  .ok ((all.filterMap id).mergeSort fun a b => a.place.le b.place)

/-! ## All of it is found -/

theorem spanAt_eq {tokens : Array Token} {index : Nat} (h : index < tokens.size) :
    (spanAt tokens index : Guarded ε Span) = .ok (Script.spanAt tokens index) := by
  rw [spanAt, Script.spanAt, Array.getElem?_eq_getElem h]
  rfl

theorem before_eq {index : Nat} (h : 0 < index) :
    (before index : Guarded ε Nat) = .ok (index - 1) := if_neg (Nat.ne_of_gt h)

theorem ofTokens_eq {row : List Token} {place : Position}
    (hrow : ∀ token ∈ row, token.kind ≠ .endOfInput) :
    ofTokens (row ++ [Token.endAt place]) =
      plain (Script.ofTokens (row ++ [Token.endAt place])) := by
  have hkinds : ∀ lexeme ∈ row.map Token.toLexeme, lexeme.kind ≠ .endOfInput :=
    List.forall_mem_map.mpr hrow
  have hlexemes : (row ++ [Token.endAt place]).map Token.toLexeme =
      row.map Token.toLexeme ++ [.endOfInput] := List.map_append
  have hrun := Expr.readAll_spot hkinds
  rw [← hlexemes] at hrun
  rw [ofTokens, Script.ofTokens, hrun]
  cases hread : Expr.readAll ((row ++ [Token.endAt place]).map Token.toLexeme) with
  | ok expressions => rfl
  | error refusal =>
    have hindex : refusal.index < (row ++ [Token.endAt place]).toArray.size := by
      simpa using Script.index_lt_of_row hrow hread
    simp only [plain_error, spanAt_eq hindex, ok_bind]
    rfl

theorem read_eq (source : String) : read source = plain (Script.read source) := by
  rw [read, scan_eq, Script.read]
  cases hscan : Token.scan source with
  | error fault => rfl
  | ok tokens =>
    obtain ⟨row, rfl, hrow⟩ := Token.scan_row hscan
    exact ofTokens_eq hrow

/-- In a list, every token ends up with the owner that the walk over all expressions finds for it. -/
theorem getElem?_foldl_takeOver (nodes : List (Numbered Expr)) (owners : List Nat) (index : Nat) :
    (nodes.foldl takeOver owners)[index]? = owners[index]?.map fun first =>
      nodes.foldl (fun found node => if node.label.range.contains index then node.id else found)
        first := by
  induction nodes generalizing owners with
  | nil => simp
  | cons node nodes ih =>
    rw [List.foldl_cons, ih, takeOver, List.getElem?_mapIdx, Option.map_map]
    rfl

theorem getElem?_owners (nodes : List (Numbered Expr)) {size index : Nat} (h : index < size) :
    (nodes.foldl takeOver (List.replicate size 0))[index]? = some (Script.owner nodes index) := by
  rw [getElem?_foldl_takeOver, List.getElem?_replicate_of_lt h]
  rfl

theorem terminalRow?_eq (nodes : List (Numbered Expr)) (callees : List Nat) (token : Token)
    {size index : Nat} (h : index < size) :
    (terminalRow? (nodes.foldl takeOver (List.replicate size 0)) callees token index :
        Guarded ε (Option Row)) = .ok (Script.terminalRow? nodes callees token index) := by
  rw [terminalRow?, Script.terminalRow?, getElem?_owners nodes h]
  split <;> rfl

section Expressions
variable {script : Script} {e : Expr}

theorem span_eq (he : e.Within (script.tokens.size - 1)) :
    (span script e : Guarded ε Span) = .ok (script.span e) := by
  obtain ⟨hstart, hpositive, hstop, -⟩ := he
  rw [span, spanAt_eq (by omega), ok_bind, before_eq hpositive, ok_bind, spanAt_eq (by omega)]
  rfl

variable (hsound : script.Sound) (he : e ∈ script.nodes)
include hsound he

theorem within_of_mem : e.Within (script.tokens.size - 1) :=
  (Expr.inside_iff.mp (hsound.inside_of_mem he)).1

theorem within_callee {callee : Expr} {given : List (Argument Expr)}
    (hform : e.form = .call callee given) : callee.Within (script.tokens.size - 1) := by
  have hchild : callee ∈ e.children := by simp [Expr.children, hform, Form.children]
  exact (Expr.inside_iff.mp ((Expr.inside_iff.mp (hsound.inside_of_mem he)).2 callee hchild)).1

theorem calleeToken?_eq :
    (calleeToken? script e : Guarded ε (Option Nat)) = .ok (Script.calleeToken? e) := by
  unfold calleeToken? Script.calleeToken?
  cases hform : e.form with
  | call callee given =>
    obtain ⟨-, hpositive, hstop, -⟩ := within_callee hsound he hform
    have htoken : callee.range.stop - 1 < script.tokens.size := by omega
    simp only [before_eq hpositive, ok_bind, Array.getElem?_eq_getElem htoken]
    cases callee.form <;> rfl
  | _ => rfl

theorem assignment?_eq :
    (assignment? script e : Guarded ε (Option Assignment)) = .ok (script.assignment? e) := by
  unfold assignment? Script.assignment?
  cases hform : e.form with
  | assign operator index left right =>
    have hindex : index < script.tokens.size := by
      have hlt := (within_of_mem hsound he).place index (by rw [hform]; rfl)
      omega
    simp only [spanAt_eq hindex]
    cases (operator.target left right).identifier? <;> rfl
  | _ => rfl

theorem callSite?_eq :
    (callSite? script e : Guarded ε (Option CallSite)) = .ok (script.callSite? e) := by
  unfold callSite? Script.callSite?
  cases hform : e.form with
  | call callee given =>
    simp only [span_eq (within_callee hsound he hform)]
    cases callee.form <;> rfl
  | _ => rfl

end Expressions

section Script
variable {script : Script} (hsound : script.Sound)
include hsound

theorem assignments_eq :
    (assignments script : Guarded ε (List Assignment)) = .ok script.assignments := by
  rw [assignments, mapM_eq_ok fun e he => assignment?_eq hsound he, ok_bind, List.filterMap_map]
  rfl

theorem callSites_eq :
    (callSites script : Guarded ε (List CallSite)) = .ok script.callSites := by
  rw [callSites, mapM_eq_ok fun e he => callSite?_eq hsound he, ok_bind, List.filterMap_map]
  rfl

theorem table_eq : (table script : Guarded ε Table) = .ok script.table := by
  have hnodes : ∀ node ∈ script.numbered, node.label ∈ script.nodes := by
    intro node hnode
    rw [← script.labels_numbered]
    exact List.mem_map_of_mem hnode
  have hcallees (node) (hnode : node ∈ script.numbered) :
      (calleeToken? script node.label : Guarded ε (Option Nat)) =
        .ok (Script.calleeToken? node.label) :=
    calleeToken?_eq hsound (hnodes node hnode)
  have hrows (node) (hnode : node ∈ script.numbered) :
      (expressionRow script node : Guarded ε Row) = .ok (script.expressionRow node) := by
    rw [expressionRow, span_eq (within_of_mem hsound (hnodes node hnode))]
    rfl
  have hterminals (token) (htoken : token ∈ script.tokens.toList.zipIdx) :=
    terminalRow?_eq (ε := ε) script.numbered
      (script.numbered.filterMap fun node => Script.calleeToken? node.label) token.1
      (show token.2 < script.tokens.size from List.snd_lt_of_mem_zipIdx htoken)
  simp only [table, mapM_eq_ok hcallees, mapM_eq_ok hrows, ok_bind, List.filterMap_map,
    Function.id_comp]
  rw [mapM_eq_ok hterminals, ok_bind, List.filterMap_map]
  rfl

end Script
end Guarded
end TypeDrift
