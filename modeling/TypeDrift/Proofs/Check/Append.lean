import TypeDrift.Check.Checker
import TypeDrift.Proofs.Script.Append

/-! # Checking one script behind another

A check follows the assignments of a script in order and keeps nothing but the bindings.  So where
one script comes behind another, the check of the whole is the check of the first, and then the check
of the second from the bindings that the first has left (`check_append_newline`).  All that the
second script adds stands that many lines further down.

That the two do not meet otherwise is said in `Joined`: the assignments and calls of the whole are
those of the one script and those of the other, in this order.  What remains is that neither the
places of assignments nor the indices in their values enter what is inferred.
-/
namespace TypeDrift

open Text

/-- The same finding, so many lines further down. -/
def Finding.down (lines : Nat) (finding : Finding) : Finding :=
  { finding with place := finding.place.down lines }

/-- The same step, for an assignment that comes so much later. -/
def Step.later (lines distance : Nat) (step : Step) : Step :=
  { step with assignment := step.assignment.later lines distance }

variable (lines distance : Nat)

namespace Bindings

section Rewriting
variable {f : Assignment → Assignment} (hname : ∀ record, (f record).name = record.name)
include hname

/-- Assignments may be rewritten, if their names and the types of their values stay. -/
theorem history_map (registry : Registry)
    (hvalue : ∀ record bindings,
      (f record).value.infer registry bindings = record.value.infer registry bindings)
    (bindings : Bindings) (records : List Assignment) :
    bindings.history registry (records.map f) =
      (bindings.history registry records).map fun step =>
        { step with assignment := f step.assignment } := by
  induction records generalizing bindings with
  | nil => rfl
  | cons record records ih =>
    simp only [List.map_cons, history, hname, hvalue]
    exact congrArg (List.cons _) (ih _)

theorem after_map (bindings : Bindings) (steps : List Step) :
    bindings.after (steps.map fun step => { step with assignment := f step.assignment }) =
      bindings.after steps := by
  simp only [after, List.foldl_map, hname]

end Rewriting

/-- What assignments bind does not depend on where they stand. -/
theorem history_later (registry : Registry) (bindings : Bindings) (records : List Assignment) :
    bindings.history registry (records.map (Assignment.later lines distance)) =
      (bindings.history registry records).map (Step.later lines distance) :=
  history_map (f := Assignment.later lines distance) (fun _ => rfl) registry
    (fun record _ => Expr.infer_renumber _ record.value) bindings records

theorem after_later (bindings : Bindings) (steps : List Step) :
    bindings.after (steps.map (Step.later lines distance)) = bindings.after steps :=
  after_map (f := Assignment.later lines distance) (fun _ => rfl) bindings steps

end Bindings

namespace Finding

theorem ofStep?_later (step : Step) :
    ofStep? (step.later lines distance) = (ofStep? step).map (down lines) := by
  obtain ⟨assignment, _ | previous, current⟩ := step
  · rfl
  · simp only [Step.later, ofStep?, apply_ite (Option.map (down lines))]
    rfl

theorem ofCall?_down (site : CallSite) :
    ofCall? (site.down lines) = (ofCall? site).map (down lines) := by
  simp only [CallSite.down, ofCall?, Option.map_map]
  rfl

end Finding

/-- The check of a script that is made of two. -/
theorem Checker.checkScript_joined (checker : Checker) {first second whole : Script}
    (h : Script.Joined lines first second whole) (hfirst : first.Sound) (hsecond : second.Sound)
    (hwhole : whole.Sound) :
    let left := checker.checkScript first
    let steps := left.bindings.history checker.registry second.assignments
    checker.checkScript whole =
      { errors := []
        warnings := left.warnings ++ (steps.filterMap Finding.ofStep?).map (Finding.down lines)
        infos := left.infos ++ (checker.checkScript second).infos.map (Finding.down lines)
        bindings := left.bindings.after steps } := by
  intro left steps
  -- The history of the whole goes on from the first script's; from there all is read off by step.
  have hhistory : checker.history whole =
      checker.history first ++ steps.map (Step.later lines first.tokens.size) := by
    rw [history, h.assignments hfirst hwhole hsecond, Bindings.history_append,
      Bindings.history_later]
    rfl
  have hwarnings : (steps.map (Step.later lines first.tokens.size)).filterMap Finding.ofStep? =
      (steps.filterMap Finding.ofStep?).map (Finding.down lines) := by
    rw [List.filterMap_map, List.map_filterMap]
    exact congrArg (List.filterMap · steps) (funext (Finding.ofStep?_later lines _))
  have hinfos : (second.callSites.map (CallSite.down lines)).filterMap Finding.ofCall? =
      (second.callSites.filterMap Finding.ofCall?).map (Finding.down lines) := by
    rw [List.filterMap_map, List.map_filterMap]
    exact congrArg (List.filterMap · _) (funext (Finding.ofCall?_down lines))
  simp only [checkScript, hhistory, h.callSites hfirst hwhole hsecond, List.filterMap_append,
    hwarnings, hinfos, Bindings.after_append, Bindings.after_later]
  rfl

/-- **One text behind another.**  Let a text be a script that does not end with a carriage return.
Behind it and a line feed, another text is a script just if it is one alone.  Then the whole has the
expressions of the one and of the other, those of the other with larger indices and that many lines
further down, and the check of the whole goes on from the bindings that the first script leaves.  If
the other text is no script, the whole is none for the same reason. -/
theorem check_append_newline (checker : Checker) {a b : String} {first : Script}
    (ha : Script.read a = .ok first) (hend : a.toList.getLast? ≠ some '\r') :
    let lines := lineBreaks a.toList + 1
    match Script.read b with
    | .error fault => Script.read (a ++ "\n" ++ b) = .error (fault.down lines)
    | .ok second =>
      ∃ whole, Script.read (a ++ "\n" ++ b) = .ok whole ∧
        Script.Joined lines first second whole ∧
        (∀ e ∈ first.nodes, whole.span e = first.span e) ∧
        (∀ e ∈ second.nodes, whole.span (e.renumber (.shift first.tokens.size)) =
          (second.span e).down lines) ∧
        let left := checker.check a
        let steps := left.bindings.history checker.registry second.assignments
        checker.check (a ++ "\n" ++ b) =
          { errors := []
            warnings := left.warnings ++ (steps.filterMap Finding.ofStep?).map (Finding.down lines)
            infos := left.infos ++ (checker.check b).infos.map (Finding.down lines)
            bindings := left.bindings.after steps } := by
  intro lines
  have hread := Script.read_append_newline (b := b) ha hend
  cases hb : Script.read b with
  | error fault =>
    rw [hb] at hread
    exact hread
  | ok second =>
    rw [hb] at hread
    obtain ⟨whole, hwhole, hjoined⟩ := hread
    have hfirst := Script.sound_of_read ha
    have hsecond := Script.sound_of_read hb
    refine ⟨whole, hwhole, hjoined, fun e he => hjoined.span_first (hfirst.inside_of_mem he),
      fun e he => hjoined.span_second hfirst (hsecond.inside_of_mem he), ?_⟩
    have hcheck := checker.checkScript_joined lines hjoined hfirst hsecond
      (Script.sound_of_read hwhole)
    simpa only [Checker.check, ha, hb, hwhole] using hcheck

/-- A script that ends with a comment, and a text that binds its name again. -/
theorem check_append_newline_comment :
    ∃ first second whole,
      Script.read "x <- 1L\nif (T) mean(x) # note" = .ok first ∧
      Script.read "x <- 'a'; sd(x)" = .ok second ∧
      Script.read "x <- 1L\nif (T) mean(x) # note\nx <- 'a'; sd(x)" = .ok whole ∧
      Script.Joined 2 first second whole ∧
      ((Checker.mk .empty false).check
        "x <- 1L\nif (T) mean(x) # note\nx <- 'a'; sd(x)").infos =
        ((Checker.mk .empty false).check "x <- 1L\nif (T) mean(x) # note").infos ++
          (((Checker.mk .empty false).check "x <- 'a'; sd(x)").infos.map (Finding.down 2)) := by
  obtain ⟨first, hfirst⟩ := Script.exists_read_of_isOk
    (show (Script.read "x <- 1L\nif (T) mean(x) # note").isOk = true by decide +kernel)
  obtain ⟨second, hsecond⟩ := Script.exists_read_of_isOk
    (show (Script.read "x <- 'a'; sd(x)").isOk = true by decide +kernel)
  have happend := check_append_newline ⟨.empty, false⟩ (b := "x <- 'a'; sd(x)") hfirst
    (by decide +kernel)
  rw [hsecond] at happend
  obtain ⟨whole, hwhole, hjoined, -, -, hcheck⟩ := happend
  exact ⟨first, second, whole, hfirst, hsecond, hwhole, hjoined, congrArg Outcome.infos hcheck⟩

end TypeDrift
