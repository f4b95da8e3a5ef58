import TypeDrift.Proofs.Check.Drift
import TypeDrift.Proofs.Script.Assignments
import TypeDrift.Proofs.Typing.Sources

/-! # Chains of assignments

A chain gives several names one value.  The checker does not follow it as one assignment: it follows
each of its records on its own, in the order of the operators, and types the value anew with what the
records before it have bound.  So the names need not get one type.

Binding a name to the type that the value has just had makes no difference to that type, unless the
value is read off a column (`Expr.origin`): the name may have been that of the table.  In that case
what is bound later has the same base type still or none that is known (`fadingSimulation`).  This is
all that can happen (`chain_bases`).
-/
namespace TypeDrift

namespace Expr

/-- A chain of assignments to bare names on the left of a value, the names in the order of their
operators: `a <- b <- value`. -/
inductive LeftwardChain (value : Expr) : List String → Expr → Prop
  | value : LeftwardChain value [] value
  | target {operator : AssignOperator} {place : Nat} {target rest node : Expr} {name : String}
      {names : List String} (hform : node.form = .assign operator place target rest)
      (hside : operator.isRightward = false) (htarget : target.form = .identifier name)
      (hrest : LeftwardChain value names rest) : LeftwardChain value (name :: names) node

/-- A chain of assignments to bare names on the right of a value, the names in the order of their
operators: `value -> a -> b`. -/
inductive RightwardChain (value : Expr) : List String → Expr → Prop
  | value : RightwardChain value [] value
  | target {operator : AssignOperator} {place : Nat} {target rest node : Expr} {name : String}
      {names : List String} (hform : node.form = .assign operator place rest target)
      (hside : operator.isRightward = true) (htarget : target.form = .identifier name)
      (hrest : RightwardChain value names rest) : RightwardChain value (names ++ [name]) node

/-- The names of the longest chain on the left of a value, and the value. -/
def leftward : Expr → List String × Expr
  | .node range (.assign operator place (.node range' (.identifier name)) rest) =>
    if operator.isRightward then
      ([], .node range (.assign operator place (.node range' (.identifier name)) rest))
    else (name :: rest.leftward.1, rest.leftward.2)
  | e => ([], e)

theorem leftwardChain_leftward (e : Expr) : LeftwardChain e.leftward.2 e.leftward.1 e := by
  fun_induction leftward e with
  | case1 => exact .value
  | case2 range operator place range' name rest hside ih =>
    exact .target rfl (Bool.eq_false_iff.mpr hside) rfl ih
  | case3 => exact .value

/-- A chain to one of the two sides. -/
def Chain (value : Expr) (names : List String) (node : Expr) : Prop :=
  LeftwardChain value names node ∨ RightwardChain value names node

/-- Nothing in an expression is an assignment. -/
def AssignsNothing (e : Expr) : Prop := ∀ node ∈ e.preorder, node.form.place? = none

/-- The base type of an expression is always that of a column which is taken, somewhere in it, of an
expression that mentions one of the names. -/
def TakesColumnOf (registry : Registry) (e : Expr) (names : List String) : Prop :=
  ∃ access ∈ e.preorder, ∃ table column, access.form = .member table column false ∧
    (∀ bindings, (e.infer registry bindings).base = (access.infer registry bindings).base) ∧
    ∃ name ∈ names, table.Mentions name

end Expr

/-! ## The records of a chain -/

namespace Script

/-- An expression is listed as assignments of these names, whose values have the type of `value`. -/
def ListedAs (script : Script) (names : List String) (value node : Expr) : Prop :=
  (node.inOrder.filterMap script.assignment?).map Assignment.name = names ∧
    ∀ record ∈ node.inOrder.filterMap script.assignment?, ∀ registry bindings,
      record.value.infer registry bindings = value.infer registry bindings

variable {script : Script} {value node : Expr} {names : List String}

theorem filterMap_assignment?_eq_nil (script : Script) (h : value.AssignsNothing) :
    value.inOrder.filterMap script.assignment? = [] := by
  refine List.filterMap_eq_nil_iff.mpr fun e he => ?_
  have hplace := h e ((Expr.inOrder_perm value).mem_iff.mp he)
  cases hrecord : script.assignment? e with
  | none => rfl
  | some record =>
    obtain ⟨i, hi, -⟩ := place_assignment? hrecord
    rw [hplace] at hi
    cases hi

theorem inOrder_of_assign {operator : AssignOperator} {place : Nat} {left right : Expr}
    (hform : node.form = .assign operator place left right) :
    node.inOrder = left.inOrder ++ node :: right.inOrder := by
  rw [Expr.inOrder_eq, hform]
  simp [Form.leading, Form.trailing, Form.leftOperand?]

/-- A bare name is listed as no assignment. -/
theorem listedAs_identifier {name : String} (h : node.form = .identifier name) :
    script.ListedAs [] value node := by
  have hwalk : node.inOrder = [node] := by
    rw [Expr.inOrder_eq, h]
    rfl
  have hnone : script.assignment? node = none := by simp only [assignment?, h]
  rw [ListedAs, hwalk, List.filterMap_cons_none hnone]
  exact ⟨rfl, List.forall_mem_nil _⟩

/-- An assignment to a bare name is listed between what its two sides are listed as. -/
theorem ListedAs.assign {operator : AssignOperator} {place : Nat} {left right : Expr}
    {name : String} {names' : List String}
    (hform : node.form = .assign operator place left right)
    (htarget : (operator.target left right).form = .identifier name)
    (hinfer : ∀ registry bindings,
      (operator.value left right).infer registry bindings = value.infer registry bindings)
    (hleft : script.ListedAs names value left) (hright : script.ListedAs names' value right) :
    script.ListedAs (names ++ name :: names') value node := by
  obtain ⟨hleft, hleftValues⟩ := hleft
  obtain ⟨hright, hrightValues⟩ := hright
  rw [ListedAs, inOrder_of_assign hform, List.filterMap_append,
    List.filterMap_cons_some (assignment?_of_target hform htarget)]
  refine ⟨?_, List.forall_mem_append.mpr ⟨hleftValues, List.forall_mem_cons.mpr ⟨hinfer, ?_⟩⟩⟩
  · rw [List.map_append, List.map_cons, hleft, hright]
  · exact hrightValues

theorem infer_assign {operator : AssignOperator} {place : Nat} {left right : Expr}
    (hform : node.form = .assign operator place left right) (registry : Registry)
    (bindings : Bindings) : node.infer registry bindings =
      (operator.value left right).infer registry bindings := by
  obtain ⟨range, form⟩ := node
  cases hform
  simp only [Expr.infer, Expr.inferForm, AssignOperator.value]
  split <;> rfl

/-- **A chain is listed as its names**, and every value in it has the type of the one at its end. -/
theorem listedAs_chain (hvalue : value.AssignsNothing) (h : value.Chain names node) :
    script.ListedAs names value node := by
  have hnil : script.ListedAs [] value value := by
    rw [ListedAs, filterMap_assignment?_eq_nil script hvalue]
    exact ⟨rfl, List.forall_mem_nil _⟩
  -- The type has to be known of the rest of a chain already, which is the value of a record.
  suffices script.ListedAs names value node ∧
      ∀ registry bindings, node.infer registry bindings = value.infer registry bindings from this.1
  rcases h with h | h
  · induction h with
    | value => exact ⟨hnil, fun _ _ => rfl⟩
    | @target operator place target rest _ _ _ hform hside htarget _ ih =>
      have htarget' : operator.target target rest = target := by simp [AssignOperator.target, hside]
      have hrest : operator.value target rest = rest := by simp [AssignOperator.value, hside]
      refine ⟨.assign hform (by rwa [htarget']) (by rw [hrest]; exact ih.2)
        (listedAs_identifier htarget) ih.1, fun registry bindings => ?_⟩
      rw [infer_assign hform, hrest]
      exact ih.2 registry bindings
  · induction h with
    | value => exact ⟨hnil, fun _ _ => rfl⟩
    | @target operator place target rest _ _ _ hform hside htarget _ ih =>
      have htarget' : operator.target rest target = target := by simp [AssignOperator.target, hside]
      have hrest : operator.value rest target = rest := by simp [AssignOperator.value, hside]
      refine ⟨.assign hform (by rwa [htarget']) (by rw [hrest]; exact ih.2) ih.1
        (listedAs_identifier htarget), fun registry bindings => ?_⟩
      rw [infer_assign hform, hrest]
      exact ih.2 registry bindings

end Script

/-! ## The types of a chain -/

namespace Bindings

variable {registry : Registry} {bindings : Bindings} {records : List Assignment}

/-- Records leave names alone that they do not bind. -/
theorem lookup?_reached_of_not_mem {name : String} (h : name ∉ records.map Assignment.name) :
    (bindings.reached registry records).lookup? name = bindings.lookup? name := by
  induction records using List.reverseRecOn with
  | nil => rfl
  | append_singleton records record ih =>
    rw [List.map_append, List.mem_append, not_or] at h
    rw [reached_snoc, lookup?_bind_of_ne (by simpa using h.2), ih h.1]

theorem reached_append (first second : List Assignment) :
    bindings.reached registry (first ++ second) =
      (bindings.reached registry first).reached registry second := List.foldl_append

/-- A name that is bound by one record alone stands for what that record has bound it to. -/
theorem lookup?_reached_of_split {before behind : List Assignment} {record : Assignment}
    (h : record.name ∉ behind.map Assignment.name) :
    (bindings.reached registry (before ++ record :: behind)).lookup? record.name =
      some (record.value.infer registry (bindings.reached registry before)) := by
  rw [List.append_cons, reached_append, lookup?_reached_of_not_mem h, reached_snoc,
    lookup?_bind_self]

end Bindings

theorem Descriptor.ofName_bind_self (bindings : Bindings) (name : String) (descriptor : Descriptor) :
    ofName (bindings.bind name descriptor) name = descriptor := by
  rw [ofName, Bindings.lookup?_bind_self]

theorem Descriptor.ofName_bind_of_ne {name other : String} (h : other ≠ name) (bindings : Bindings)
    (descriptor : Descriptor) :
    ofName (bindings.bind name descriptor) other = ofName bindings other := by
  rw [ofName, Bindings.lookup?_bind_of_ne h, ofName]

theorem mentions_of_access {access table : Expr} {column name : String}
    (hform : access.form = .member table column false) (h : access.Mentions name) :
    table.Mentions name := by
  obtain ⟨node, hnode, hname⟩ := h
  have hchildren : access.children = [table] := by rw [Expr.children, hform]; rfl
  rw [Expr.preorder_eq, hchildren] at hnode
  rcases List.mem_cons.mp hnode with rfl | hnode
  · rw [hform] at hname
    cases hname
  · exact ⟨node, by simpa [Expr.preorderAll] using hnode, hname⟩

section Bases
variable {registry : Registry} {bindings : Bindings} {value : Expr}

/-- A name that a value has its type from keeps its base type, whether the value is bound to it or to
another name. -/
theorem base_ofName_reached {name : String} {records : List Assignment}
    (hbase : ∀ bindings, (value.infer registry bindings).base =
      (Descriptor.ofName bindings name).base)
    (hvalues : ∀ record ∈ records, ∀ registry bindings,
      record.value.infer registry bindings = value.infer registry bindings) :
    (Descriptor.ofName (bindings.reached registry records) name).base =
      (Descriptor.ofName bindings name).base := by
  induction records using List.reverseRecOn with
  | nil => rfl
  | append_singleton records record ih =>
    obtain ⟨hvalues, hrecord⟩ := List.forall_mem_append.mp hvalues
    have hinfer := List.forall_mem_singleton.mp hrecord registry (bindings.reached registry records)
    rw [Bindings.reached_snoc]
    by_cases hname : name = record.name
    · subst hname
      rw [Descriptor.ofName_bind_self, hinfer, hbase]
      exact ih hvalues
    · rw [Descriptor.ofName_bind_of_ne hname]
      exact ih hvalues

/-- While a value without columns is bound to names, what is known of names fades. -/
theorem fadesTo_ofName_reached {records : List Assignment}
    (hkept : registry.resolve? (value.infer registry bindings).base.tag =
      some (value.infer registry bindings).base)
    (hcolumns : ∀ bindings column, (value.infer registry bindings).columnTag? column = none)
    (hvalues : ∀ record ∈ records, ∀ registry bindings,
      record.value.infer registry bindings = value.infer registry bindings) (name : String) :
    (Descriptor.ofName bindings name).FadesTo registry (value.infer registry bindings).base
      (Descriptor.ofName (bindings.reached registry records) name) := by
  induction records using List.reverseRecOn generalizing name with
  | nil => exact .refl _
  | append_singleton records record ih =>
    obtain ⟨hvalues, hrecord⟩ := List.forall_mem_append.mp hvalues
    have hinfer := List.forall_mem_singleton.mp hrecord registry (bindings.reached registry records)
    rw [Bindings.reached_snoc]
    by_cases hname : name = record.name
    · subst hname
      have hfades := (fadingSimulation hkept).infer_of_mentions value fun name _ => ih hvalues name
      rw [Descriptor.ofName_bind_self, hinfer]
      exact .of_columns (.inr (hfades.base.elim .inl id)) fun column _ => hcolumns _ column
    · rw [Descriptor.ofName_bind_of_ne hname]
      exact ih hvalues name

/-- The base type of a value that has been bound to some names is what it was, or else the value is
read off a column of what mentions one of the names, and nothing is known of it any more. -/
theorem base_infer_reached {records : List Assignment}
    (hvalues : ∀ record ∈ records, ∀ registry bindings,
      record.value.infer registry bindings = value.infer registry bindings) :
    (value.infer registry (bindings.reached registry records)).base =
        (value.infer registry bindings).base ∨
      ((value.infer registry (bindings.reached registry records)).base = .unknown ∧
        value.TakesColumnOf registry (records.map Assignment.name)) := by
  cases value.origin registry with
  | fixed base hbase => exact .inl ((hbase _).trans (hbase _).symm)
  | name name hbase =>
    rw [hbase, hbase]
    exact .inl (base_ofName_reached hbase hvalues)
  | @column access table column hmem hform hbase hcolumns =>
    by_cases hmentions : ∃ name ∈ records.map Assignment.name, table.Mentions name
    · have hkept : registry.resolve? (value.infer registry bindings).base.tag =
          some (value.infer registry bindings).base := by
        rw [hbase, Expr.infer_access hform]
        exact Descriptor.resolve?_ofMember registry _ column
      have hfades := (fadingSimulation hkept).infer_of_mentions value fun name _ =>
        fadesTo_ofName_reached hkept hcolumns hvalues name
      rcases hfades.base with heq | heq | hunknown
      · exact .inl heq
      · exact .inl heq
      · exact .inr ⟨hunknown, access, hmem, table, column, hform, hbase, hmentions⟩
    · rw [hbase, hbase]
      refine .inl (congrArg Descriptor.base (Expr.infer_congr fun name hname => ?_))
      exact Bindings.lookup?_reached_of_not_mem fun hmem =>
        hmentions ⟨name, hmem, mentions_of_access hform hname⟩

end Bases

/-- **The names of a chain get one base type**, whatever was known before it; unless the value is
read off a column of what mentions a name that has been bound before, and nothing is known of the
column any more. -/
theorem chain_bases {source : String} {script : Script} (h : Script.read source = .ok script)
    {value chain : Expr} {names : List String} (hmem : chain ∈ script.nodes)
    (hchain : value.Chain names chain) (hnames : names.Nodup) (hvalue : value.AssignsNothing) :
    ∃ before records behind, script.assignments = before ++ records ++ behind ∧
      records.map Assignment.name = names ∧
      ∀ registry bindings earlier name later, names = earlier ++ name :: later →
        ∃ descriptor,
          (bindings.after (bindings.history registry records)).lookup? name = some descriptor ∧
          (descriptor.base = (value.infer registry bindings).base ∨
            (descriptor.base = .unknown ∧ value.TakesColumnOf registry earlier)) := by
  have hrecords : script.ListedAs names value chain := Script.listedAs_chain hvalue hchain
  obtain ⟨hlisted, hvalues⟩ := hrecords
  obtain ⟨before, behind, hassignments⟩ :=
    (Script.inOrder_infix hmem).filterMap script.assignment?
  refine ⟨before, _, behind, ?_, hlisted, ?_⟩
  · rw [Script.assignments_eq h]
    exact hassignments.symm
  · intro registry bindings earlier name later hsplit
    rw [← hlisted, List.map_eq_append_iff] at hsplit
    obtain ⟨first, rest, hrecords, rfl, hrest⟩ := hsplit
    obtain ⟨record, last, rfl, rfl, rfl⟩ := List.map_eq_cons_iff.mp hrest
    rw [hrecords] at hvalues hlisted
    obtain ⟨hfirst, hrecord⟩ := List.forall_mem_append.mp hvalues
    have hlater : record.name ∉ last.map Assignment.name := by
      rw [← hlisted, List.map_append, List.map_cons] at hnames
      exact (List.nodup_cons.mp (List.nodup_append.mp hnames).2.1).1
    rw [Bindings.after_history, hrecords]
    refine ⟨_, Bindings.lookup?_reached_of_split hlater, ?_⟩
    rw [(List.forall_mem_cons.mp hrecord).1]
    exact base_infer_reached hfirst

/-- The last expression of a script is a chain of these names. -/
def Script.endsInChain (script : Script) (names : List String) : Bool :=
  script.expressions.getLast?.any fun e =>
    e.leftward.1 == names && e.leftward.2.preorder.all fun node => node.form.place?.isNone

theorem Script.exists_chain {script : Script} {names : List String}
    (h : script.endsInChain names = true) :
    ∃ chain value : Expr, chain ∈ script.nodes ∧ value.Chain names chain ∧ value.AssignsNothing := by
  obtain ⟨chain, hlast, htest⟩ := (Option.any_eq_true _ _).mp h
  rw [Bool.and_eq_true, beq_iff_eq, List.all_eq_true] at htest
  refine ⟨chain, chain.leftward.2, ?_, ?_, fun node hnode => ?_⟩
  · exact List.mem_flatMap.mpr ⟨chain, List.mem_of_getLast? hlast,
      Expr.preorder_eq chain ▸ List.mem_cons_self⟩
  · rw [← htest.1]
    exact .inl chain.leftwardChain_leftward
  · exact Option.isNone_iff_eq_none.mp (htest.2 node hnode)

/-- A chain whose value depends on what was known before it. -/
theorem chain_bases_combined :
    ∃ script, ∃ chain value : Expr,
      Script.read "n <- 1L\na <- b <- c(n, 2)" = .ok script ∧ chain ∈ script.nodes ∧
      value.Chain ["a", "b"] chain ∧ ["a", "b"].Nodup ∧ value.AssignsNothing ∧
      ∃ before records behind, script.assignments = before ++ records ++ behind ∧
        records.map Assignment.name = ["a", "b"] ∧
        ∀ registry (bindings : Bindings) earlier name later, ["a", "b"] = earlier ++ name :: later →
          ∃ descriptor : Descriptor,
            (bindings.after (bindings.history registry records)).lookup? name = some descriptor ∧
            (descriptor.base = (value.infer registry bindings).base ∨
              (descriptor.base = .unknown ∧ value.TakesColumnOf registry earlier)) := by
  obtain ⟨script, hread, htest⟩ := Script.exists_read_of_test
    (show ((Script.read "n <- 1L\na <- b <- c(n, 2)").toOption.any
      fun script => script.endsInChain ["a", "b"]) = true by decide +kernel)
  obtain ⟨chain, value, hmem, hchain, hvalue⟩ := Script.exists_chain htest
  exact ⟨script, chain, value, hread, hmem, hchain, by decide, hvalue,
    chain_bases hread hmem hchain (by decide) hvalue⟩

/-- Where the value is a column and the first name is that of the table, the names do not get one
base type: the second record finds no table any more. -/
theorem chain_bases_column :
    ∃ script, ∃ chain value : Expr,
      Script.read "x <- data.frame(a = 1L)\nx <- y <- x$a" = .ok script ∧ chain ∈ script.nodes ∧
      value.Chain ["x", "y"] chain ∧ ["x", "y"].Nodup ∧ value.AssignsNothing ∧
      script.assignments.map Assignment.name = ["x"] ++ ["x", "y"] ∧
      let bindings :=
        ((⟨.empty, false⟩ : Checker).check "x <- data.frame(a = 1L)\nx <- y <- x$a").bindings
      (bindings.lookup? "x").map Descriptor.base = some .integer ∧
      (bindings.lookup? "y").map Descriptor.base = some .unknown := by
  obtain ⟨script, hread, htest⟩ := Script.exists_read_of_test
    (show ((Script.read "x <- data.frame(a = 1L)\nx <- y <- x$a").toOption.any fun script =>
      let records := script.inOrder.filterMap script.assignment?
      let bindings := Bindings.empty.reached .empty records
      script.endsInChain ["x", "y"] && records.map Assignment.name == ["x", "x", "y"] &&
        (bindings.lookup? "x").map Descriptor.base == some .integer &&
        (bindings.lookup? "y").map Descriptor.base == some .unknown) = true by decide +kernel)
  simp only [Bool.and_eq_true, beq_iff_eq] at htest
  obtain ⟨⟨⟨htest, hnames⟩, hx⟩, hy⟩ := htest
  obtain ⟨chain, value, hmem, hchain, hvalue⟩ := Script.exists_chain htest
  have hbindings : ((⟨.empty, false⟩ : Checker).check
      "x <- data.frame(a = 1L)\nx <- y <- x$a").bindings =
        Bindings.empty.reached .empty (script.inOrder.filterMap script.assignment?) := by
    simp only [Checker.check, hread, Checker.checkScript, Checker.history, Bindings.after_history,
      Script.assignments_eq hread]
  refine ⟨script, chain, value, hread, hmem, hchain, by decide, hvalue, ?_, ?_⟩
  · rw [Script.assignments_eq hread]
    exact hnames
  · rw [hbindings]
    exact ⟨hx, hy⟩

end TypeDrift
