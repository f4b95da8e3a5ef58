import Mathlib.Data.List.Induction
import TypeDrift.Check.Checker

/-! # Which assignments drift

A check threads one state through the assignments of a script: the bindings, from which the type of
the next value is inferred and which that value then changes.  The history of the checker records
what the bindings said of a name just before it was bound again.

This module says the same without the state.  The type of a record is inferred in the bindings that
the records before it leave (`inferredAt`), and a record drifts from the **last** record before it
that binds the same name (`DriftsFrom`).  The bridge is one lemma about the bindings after `k`
records (`lookup?_reached_take`): a name stands for what was inferred at the last of these that
binds it.  Everything the checker reports is then read off record by record.
-/
namespace TypeDrift

namespace Bindings

/-- The bindings that some records leave, from given bindings on. -/
def reached (registry : Registry) (bindings : Bindings) (records : List Assignment) : Bindings :=
  records.foldl
    (fun bindings record => bindings.bind record.name (record.value.infer registry bindings))
    bindings

theorem reached_snoc (registry : Registry) (bindings : Bindings) (records : List Assignment)
    (record : Assignment) :
    bindings.reached registry (records ++ [record]) =
      (bindings.reached registry records).bind record.name
        (record.value.infer registry (bindings.reached registry records)) := by
  simp [reached, List.foldl_append]

theorem after_history (registry : Registry) (bindings : Bindings) (records : List Assignment) :
    bindings.after (bindings.history registry records) = bindings.reached registry records := by
  induction records generalizing bindings with
  | nil => rfl
  | cons record records ih => exact ih _

theorem names_bind (bindings : Bindings) (name : String) (descriptor : Descriptor) :
    (bindings.bind name descriptor).names =
      if name ∈ bindings.names then bindings.names else bindings.names ++ [name] := by
  obtain ⟨entries⟩ := bindings
  simp only [names, bind]
  induction entries with
  | nil => simp [bindEntry]
  | cons entry entries ih =>
    unfold bindEntry
    by_cases hentry : entry.1 = name
    · simp [hentry]
    · have hne : name ≠ entry.1 := fun h => hentry h.symm
      simp only [hentry, if_false, List.map_cons, ih, List.mem_cons, hne, false_or]
      exact (apply_ite (entry.1 :: ·) _ _ _)

/-- Without repetitions, a new name comes behind all others. -/
theorem eraseDups_concat (names : List String) (name : String) :
    (names ++ [name]).eraseDups =
      if name ∈ names then names.eraseDups else names.eraseDups ++ [name] := by
  rw [List.eraseDups_append, List.removeAll]
  split
  · next hmem =>
    rw [List.filter_cons_of_neg (by simpa using hmem)]
    simp
  · next hmem =>
    rw [List.filter_cons_of_pos (by simpa using hmem)]
    rfl

/-- Names keep the order in which the records bind them first. -/
theorem names_reached (registry : Registry) (records : List Assignment) :
    (empty.reached registry records).names = (records.map Assignment.name).eraseDups := by
  induction records using List.reverseRecOn with
  | nil => rfl
  | append_singleton records record ih =>
    rw [reached_snoc, names_bind, ih, List.map_append, List.map_singleton, eraseDups_concat]
    simp only [List.mem_eraseDups]

end Bindings

/-! ## Steps that drift -/

/-- A name is bound to another type than before: the assignment, and the two types. -/
structure Drift where
  assignment : Assignment
  previous : BaseType
  current : BaseType

/-- The warning about a drift. -/
def Drift.finding (drift : Drift) : Finding :=
  .drifted drift.assignment drift.previous drift.current

/-- The drift of a step: from one known type to another. -/
def Step.drift? (step : Step) : Option Drift :=
  step.previous.bind fun previous =>
    if previous.base ≠ .unknown ∧ step.current.base ≠ .unknown ∧
        previous.base ≠ step.current.base then
      some ⟨step.assignment, previous.base, step.current.base⟩
    else none

/-- A drift is between two types that are known. -/
theorem Step.drift?_eq_some_iff {step : Step} {drift : Drift} :
    step.drift? = some drift ↔ ∃ previous, step.previous = some previous ∧
      previous.base ≠ .unknown ∧ step.current.base ≠ .unknown ∧
      previous.base ≠ step.current.base ∧
      drift = ⟨step.assignment, previous.base, step.current.base⟩ := by
  simp only [drift?, Option.bind_eq_some_iff, Option.ite_none_right_eq_some, Option.some.injEq,
    and_assoc, eq_comm (a := drift)]

/-- The drifts of a history, in their order. -/
def Bindings.driftsOf (steps : List Step) : List Drift := steps.filterMap Step.drift?

theorem Finding.ofStep?_eq (step : Step) : ofStep? step = step.drift?.map Drift.finding := by
  unfold ofStep? Step.drift?
  cases step.previous with
  | none => rfl
  | some previous =>
    by_cases hdrift : previous.base ≠ .unknown ∧ step.current.base ≠ .unknown ∧
        previous.base ≠ step.current.base
    · obtain ⟨hprevious, hcurrent, hne⟩ := hdrift
      simp [Descriptor.isUnknown, Descriptor.sameType, Drift.finding, hprevious, hcurrent, hne]
    · have htest : (!previous.isUnknown && !step.current.isUnknown &&
          !previous.sameType step.current) = false := by
        simpa [Descriptor.isUnknown, Descriptor.sameType, Bool.and_assoc] using hdrift
      simp [htest, hdrift]

/-- A finding is made where a type that was known becomes another one. -/
theorem Finding.ofStep?_eq_some_iff {step : Step} {finding : Finding} :
    ofStep? step = some finding ↔ ∃ previous, step.previous = some previous ∧
      previous.base ≠ .unknown ∧ step.current.base ≠ .unknown ∧
      previous.base ≠ step.current.base ∧
      finding = .drifted step.assignment previous.base step.current.base := by
  rw [ofStep?_eq, Option.map_eq_some_iff]
  constructor
  · rintro ⟨drift, hdrift, rfl⟩
    obtain ⟨previous, hprevious, hknown, hcurrent, hne, rfl⟩ := Step.drift?_eq_some_iff.mp hdrift
    exact ⟨previous, hprevious, hknown, hcurrent, hne, rfl⟩
  · rintro ⟨previous, hprevious, hknown, hcurrent, hne, rfl⟩
    exact ⟨⟨step.assignment, previous.base, step.current.base⟩,
      Step.drift?_eq_some_iff.mpr ⟨previous, hprevious, hknown, hcurrent, hne, rfl⟩, rfl⟩

/-- The checker warns of the drifts of a history, and of nothing else. -/
theorem Bindings.warnings_eq (steps : List Step) :
    steps.filterMap Finding.ofStep? = (driftsOf steps).map Drift.finding := by
  rw [driftsOf, List.map_filterMap]
  exact congrArg (List.filterMap · steps) (funext Finding.ofStep?_eq)

/-! ## Records by index -/

section Records
variable (registry : Registry) (records : List Assignment)

/-- What is inferred for the value of a record, in the bindings that the records before it leave,
starting from none. -/
def inferredAt (i : Fin records.length) : Descriptor :=
  records[i].value.infer registry (Bindings.empty.reached registry (records.take i))

/-- `j` is the last of the first `k` records that binds a name. -/
def LastBinding (k : Nat) (name : String) (j : Fin records.length) : Prop :=
  j < k ∧ records[j].name = name ∧
    ∀ l : Fin records.length, j < l → l < k → records[l].name ≠ name

/-- **Drift.**  `j` is the last record before `i` that binds the name that `i` binds, both types
are known, and their base types differ. -/
def DriftsFrom (j i : Fin records.length) : Prop :=
  LastBinding records i records[i].name j ∧
    (inferredAt registry records j).base ≠ .unknown ∧
    (inferredAt registry records i).base ≠ .unknown ∧
    (inferredAt registry records j).base ≠ (inferredAt registry records i).base

variable {records}

theorem LastBinding.unique {k : Nat} {name : String} {i j : Fin records.length}
    (hi : LastBinding records k name i) (hj : LastBinding records k name j) : i = j := by
  rcases Nat.lt_trichotomy i j with h | h | h
  · exact absurd hj.2.1 (hi.2.2 j h hj.1)
  · exact Fin.ext h
  · exact absurd hi.2.1 (hj.2.2 i h hi.1)

/-- One more record either is the last binding of a name or leaves it where it was. -/
theorem lastBinding_succ {k : Nat} (hk : k < records.length) {name : String}
    {j : Fin records.length} :
    LastBinding records (k + 1) name j ↔
      if records[k].name = name then j = ⟨k, hk⟩ else LastBinding records k name j := by
  by_cases hname : records[k].name = name
  · simp only [hname, if_true]
    constructor
    · intro h
      refine h.unique ⟨Nat.lt_succ_self k, hname, fun l hl hlt => ?_⟩
      exact absurd (show k < l.val from hl) (by omega)
    · rintro rfl
      exact ⟨Nat.lt_succ_self k, hname, fun l hl hlt =>
        absurd (show k < l.val from hl) (by omega)⟩
  · simp only [hname, if_false]
    constructor
    · rintro ⟨hlt, hj, hlast⟩
      have hne : j.val ≠ k := by
        rintro rfl
        exact hname hj
      exact ⟨by omega, hj, fun l hl hlk => hlast l hl (by omega)⟩
    · rintro ⟨hlt, hj, hlast⟩
      refine ⟨by omega, hj, fun l hl hlk => ?_⟩
      by_cases hlk' : l.val = k
      · have hl : l = ⟨k, hk⟩ := Fin.ext hlk'
        rw [hl]
        exact hname
      · exact hlast l hl (by omega)

/-- After `k` records a name stands for what was inferred at the last of them that binds it. -/
theorem lookup?_reached_take {k : Nat} (hk : k ≤ records.length) (name : String)
    (descriptor : Descriptor) :
    (Bindings.empty.reached registry (records.take k)).lookup? name = some descriptor ↔
      ∃ j, LastBinding records k name j ∧ inferredAt registry records j = descriptor := by
  -- Each further record binds its own name and leaves every other one as it was.
  induction k with
  | zero =>
    constructor
    · intro h
      cases h
    · rintro ⟨j, ⟨hj, _⟩, _⟩
      exact absurd hj (Nat.not_lt_zero _)
  | succ k ih =>
    have hlt : k < records.length := hk
    rw [← List.take_append_getElem hlt, Bindings.reached_snoc]
    by_cases hname : records[k].name = name
    · simp only [lastBinding_succ hlt, hname, if_true, Bindings.lookup?_bind_self,
        Option.some.injEq, exists_eq_left]
      rfl
    · rw [Bindings.lookup?_bind_of_ne (Ne.symm hname), ih (Nat.le_of_lt hlt)]
      simp only [lastBinding_succ hlt, hname, if_false]

/-- The step of a record: the bindings before it, and what is inferred in them. -/
theorem getElem_history (bindings : Bindings) {i : Nat} (hi : i < records.length)
    (hlt : i < (bindings.history registry records).length) :
    (bindings.history registry records)[i] =
      ⟨records[i], (bindings.reached registry (records.take i)).lookup? records[i].name,
        records[i].value.infer registry (bindings.reached registry (records.take i))⟩ := by
  induction records generalizing bindings i with
  | nil => exact absurd hi (Nat.not_lt_zero _)
  | cons record records ih =>
    cases i with
    | zero => rfl
    | succ i => exact ih _ (Nat.lt_of_succ_lt_succ hi) _

theorem length_history (bindings : Bindings) (records : List Assignment) :
    (bindings.history registry records).length = records.length := by
  induction records generalizing bindings with
  | nil => rfl
  | cons record records ih => exact congrArg Nat.succ (ih _)

/-- A history, record by record. -/
theorem history_eq_map (records : List Assignment) :
    Bindings.empty.history registry records =
      (List.finRange records.length).map fun i =>
        ⟨records[i],
          (Bindings.empty.reached registry (records.take i)).lookup? records[i].name,
          inferredAt registry records i⟩ := by
  apply List.ext_getElem
  · simp [length_history]
  · intro i hi _
    rw [length_history] at hi
    rw [getElem_history registry _ hi]
    simp [inferredAt]

/-! ## What the checker says at a record -/

variable {registry}

theorem ofStep?_of_driftsFrom {j i : Fin records.length} {step : Step}
    (hprevious : step.previous = some (inferredAt registry records j))
    (hcurrent : step.current = inferredAt registry records i)
    (h : DriftsFrom registry records j i) :
    Finding.ofStep? step =
      some (.drifted step.assignment (inferredAt registry records j).base
        (inferredAt registry records i).base) := by
  obtain ⟨_, hj, hi, hne⟩ := h
  rw [← hcurrent] at hi hne ⊢
  exact Finding.ofStep?_eq_some_iff.mpr ⟨_, hprevious, hj, hi, hne, rfl⟩

/-- A step that warns has a previous type. -/
theorem exists_previous_of_ofStep? {step : Step} {finding : Finding}
    (h : Finding.ofStep? step = some finding) : ∃ previous, step.previous = some previous := by
  obtain ⟨previous, hprevious, -⟩ := Finding.ofStep?_eq_some_iff.mp h
  exact ⟨previous, hprevious⟩

theorem driftsFrom_of_ofStep? {j i : Fin records.length} {step : Step} {finding : Finding}
    (hlast : LastBinding records i records[i].name j)
    (hprevious : step.previous = some (inferredAt registry records j))
    (hcurrent : step.current = inferredAt registry records i)
    (h : Finding.ofStep? step = some finding) : DriftsFrom registry records j i := by
  obtain ⟨previous, hprevious', hj, hi, hne, -⟩ := Finding.ofStep?_eq_some_iff.mp h
  cases hprevious.symm.trans hprevious'
  rw [hcurrent] at hi hne
  exact ⟨hlast, hj, hi, hne⟩

instance (k : Nat) (name : String) : DecidablePred (LastBinding records k name) :=
  fun _ => inferInstanceAs (Decidable (_ ∧ _))

instance : DecidableRel (DriftsFrom registry records) :=
  fun _ _ => inferInstanceAs (Decidable (_ ∧ _))

variable (registry records)

/-- The record that a record drifts from, with it. -/
def drift? (i : Fin records.length) : Option (Fin records.length × Fin records.length) :=
  ((List.finRange records.length).find? fun j => DriftsFrom registry records j i).map (·, i)

/-- All drifts, in the order of the records that drift. -/
def drifts : List (Fin records.length × Fin records.length) :=
  (List.finRange records.length).filterMap (drift? registry records)

variable {registry records}

theorem drift?_eq_some_iff {i j k : Fin records.length} :
    drift? registry records k = some (j, i) ↔ k = i ∧ DriftsFrom registry records j i := by
  simp only [drift?, Option.map_eq_some_iff, Prod.mk.injEq]
  constructor
  · rintro ⟨j', hfind, rfl, rfl⟩
    have hdrift := List.find?_some hfind
    exact ⟨rfl, of_decide_eq_true hdrift⟩
  · rintro ⟨rfl, h⟩
    cases hfind : (List.finRange records.length).find? fun j => DriftsFrom registry records j k with
    | none => exact absurd (decide_eq_true h) (List.find?_eq_none.mp hfind j (List.mem_finRange j))
    | some j' =>
      have hdrift := List.find?_some hfind
      exact ⟨j', rfl, (of_decide_eq_true hdrift).1.unique h.1, rfl⟩

theorem mem_drifts {i j : Fin records.length} :
    (j, i) ∈ drifts registry records ↔ DriftsFrom registry records j i := by
  simp [drifts, List.mem_filterMap, drift?_eq_some_iff]

/-- No record drifts twice, and drifts come in the order of their records. -/
theorem drifts_pairwise :
    ((drifts registry records).map Prod.snd).Pairwise (· < ·) := by
  refine List.pairwise_map.mpr (List.pairwise_filterMap.mpr ?_)
  refine (List.pairwise_lt_finRange records.length).imp fun {k l} hlt => ?_
  rintro ⟨j, i⟩ hi ⟨j', i'⟩ hi'
  obtain ⟨rfl, _⟩ := drift?_eq_some_iff.mp hi
  obtain ⟨rfl, _⟩ := drift?_eq_some_iff.mp hi'
  exact hlt

/-- A history warns where its records drift, and nowhere else. -/
theorem filterMap_ofStep? :
    (Bindings.empty.history registry records).filterMap Finding.ofStep? =
      (drifts registry records).map fun drift =>
        .drifted records[drift.2] (inferredAt registry records drift.1).base
          (inferredAt registry records drift.2).base := by
  rw [history_eq_map, drifts, List.filterMap_map, List.map_filterMap]
  congr 1
  funext i
  have hlookup := lookup?_reached_take registry (Nat.le_of_lt i.isLt) records[i].name
  by_cases hdrift : ∃ j, DriftsFrom registry records j i
  · obtain ⟨j, hj⟩ := hdrift
    have hprevious := (hlookup _).mpr ⟨j, hj.1, rfl⟩
    rw [drift?_eq_some_iff.mpr ⟨rfl, hj⟩]
    exact ofStep?_of_driftsFrom hprevious rfl hj
  · have hnone : drift? registry records i = none := by
      refine Option.eq_none_iff_forall_ne_some.mpr fun ⟨j, i'⟩ h => ?_
      obtain ⟨rfl, hj⟩ := drift?_eq_some_iff.mp h
      exact hdrift ⟨j, hj⟩
    rw [hnone]
    refine Option.eq_none_iff_forall_ne_some.mpr fun finding h => hdrift ?_
    -- Some record before this one has left the previous type of a step that warns.
    obtain ⟨previous, hprevious⟩ := exists_previous_of_ofStep? h
    obtain ⟨j, hlast, hj⟩ := (hlookup previous).mp hprevious
    exact ⟨j, driftsFrom_of_ofStep? hlast (hprevious.trans (congrArg some hj.symm)) rfl h⟩

/-- **What a check reports.**  A script that can be read gives no errors.  Its warnings are the
drifts of its records, in order, each at the record that drifts and with the two base types.  The
bindings in the end list every assigned name once, in the order of the first records, with what was
inferred at the last. -/
theorem check_reports_drifts (checker : Checker) {source : String} {script : Script}
    (h : Script.read source = .ok script) :
    let records := script.assignments
    let inferred := inferredAt checker.registry records
    (checker.check source).errors = [] ∧
    (∃ pairs : List (Fin records.length × Fin records.length),
      (pairs.map Prod.snd).Pairwise (· < ·) ∧
      (∀ j i, (j, i) ∈ pairs ↔ DriftsFrom checker.registry records j i) ∧
      (checker.check source).warnings = pairs.map fun pair =>
        { gravity := .warning
          message :=
            "variable reassigned with different type: was " ++ (inferred pair.1).base.tag ++
              ", now " ++ (inferred pair.2).base.tag
          place := records[pair.2].place
          name := some records[pair.2].name }) ∧
    (checker.check source).bindings.names = (records.map Assignment.name).eraseDups ∧
    ∀ name descriptor,
      (checker.check source).bindings.lookup? name = some descriptor ↔
        ∃ i, LastBinding records records.length name i ∧ inferred i = descriptor := by
  intro records inferred
  have hcheck : checker.check source = checker.checkScript script := by
    simp only [Checker.check, h]
  have hbindings : (checker.check source).bindings =
      Bindings.empty.reached checker.registry records := by
    rw [hcheck]
    exact Bindings.after_history _ _ _
  refine ⟨by rw [hcheck]; rfl, ⟨drifts checker.registry records, drifts_pairwise,
    fun j i => mem_drifts, ?_⟩, ?_, fun name descriptor => ?_⟩
  · rw [hcheck]
    exact filterMap_ofStep?
  · rw [hbindings]
    exact Bindings.names_reached _ _
  · have hall := lookup?_reached_take checker.registry (Nat.le_refl records.length) name descriptor
    rw [List.take_length] at hall
    rw [hbindings]
    exact hall

/-- Five records of two names, with a type in the middle that is not known. -/
theorem check_reports_drifts_chain :
    ∃ script, Script.read "x <- 1L\ny <- x\nx <- f(y)\nx <- 'a'\ny <- x" = .ok script ∧
      let records := script.assignments
      let outcome := (Checker.mk .empty false).check "x <- 1L\ny <- x\nx <- f(y)\nx <- 'a'\ny <- x"
      outcome.errors = [] ∧
      (∃ pairs : List (Fin records.length × Fin records.length),
        (∀ j i, (j, i) ∈ pairs ↔ DriftsFrom .empty records j i) ∧
        outcome.warnings.length = pairs.length) ∧
      outcome.bindings.names = (records.map Assignment.name).eraseDups := by
  obtain ⟨script, hread⟩ := Script.exists_read_of_isOk
    (show (Script.read "x <- 1L\ny <- x\nx <- f(y)\nx <- 'a'\ny <- x").isOk = true by
      decide +kernel)
  obtain ⟨herrors, ⟨pairs, _, hpairs, hwarnings⟩, hnames, _⟩ :=
    check_reports_drifts ⟨.empty, false⟩ hread
  exact ⟨script, hread, herrors, ⟨pairs, hpairs, by rw [hwarnings, List.length_map]⟩, hnames⟩

end Records
end TypeDrift
