import TypeDrift.Proofs.Check.Append
import TypeDrift.Proofs.Script.Respaced

/-! # Checks do not depend on spacing

A place enters a check in one way only: a finding carries the place of the assignment or of the call
that it is about.  So two scripts that differ in the places of their tokens are checked with the same
bindings, and with findings that differ in their places (`check_respaced`).
-/
namespace TypeDrift

/-- A step without the place of its assignment. -/
def Step.unplaced (step : Step) : Step := { step with assignment := step.assignment.unplaced }

/-- A finding without its place. -/
def Finding.unplaced (finding : Finding) : Finding := { finding with place := nowhere }

namespace Finding

theorem ofStep?_unplaced (step : Step) :
    (ofStep? step.unplaced).map unplaced = (ofStep? step).map unplaced := by
  obtain ⟨assignment, _ | previous, current⟩ := step
  · rfl
  · show (ite _ (some (drifted assignment.unplaced previous.base current.base)) none).map unplaced =
      (ite _ (some (drifted assignment previous.base current.base)) none).map unplaced
    rw [apply_ite (Option.map unplaced), apply_ite (Option.map unplaced)]
    rfl

theorem ofCall?_unplaced (site : CallSite) :
    (ofCall? site.unplaced).map unplaced = (ofCall? site).map unplaced := by
  simp only [CallSite.unplaced, ofCall?, Option.map_map]
  rfl

/-- The findings of some items, without their places, are those of the items without their places. -/
theorem map_unplaced_filterMap {α : Type} {of : α → Option Finding} {forget : α → α}
    (h : ∀ a, (of (forget a)).map unplaced = (of a).map unplaced) (l : List α) :
    (l.filterMap of).map unplaced = ((l.map forget).filterMap of).map unplaced := by
  rw [List.map_filterMap, List.map_filterMap, List.filterMap_map]
  exact List.filterMap_congr fun a _ => (h a).symm

end Finding

/-- **Two scripts that differ in places** are checked alike. -/
theorem Checker.checkScript_respaced (checker : Checker) {script script' : Script}
    (h : script.Respaced script') (hscript : script.Sound) (hscript' : script'.Sound) :
    let outcome := checker.checkScript script
    let outcome' := checker.checkScript script'
    outcome.bindings = outcome'.bindings ∧
      outcome.warnings.map Finding.unplaced = outcome'.warnings.map Finding.unplaced ∧
      outcome.infos.map Finding.unplaced = outcome'.infos.map Finding.unplaced := by
  have hforget (s : Script) : (checker.history s).map Step.unplaced =
      Bindings.empty.history checker.registry (s.assignments.map Assignment.unplaced) :=
    (Bindings.history_map (f := Assignment.unplaced) (fun _ => rfl) checker.registry
      (fun _ _ => rfl) _ _).symm
  have hhistory : (checker.history script).map Step.unplaced =
      (checker.history script').map Step.unplaced := by
    rw [hforget, hforget, h.assignments hscript hscript']
  have hafter (steps : List Step) :
      Bindings.empty.after (steps.map Step.unplaced) = Bindings.empty.after steps :=
    Bindings.after_map (f := Assignment.unplaced) (fun _ => rfl) _ _
  refine ⟨?_, ?_, ?_⟩
  · show Bindings.empty.after (checker.history script) =
      Bindings.empty.after (checker.history script')
    rw [← hafter, hhistory, hafter]
  · show ((checker.history script).filterMap Finding.ofStep?).map Finding.unplaced =
      ((checker.history script').filterMap Finding.ofStep?).map Finding.unplaced
    rw [Finding.map_unplaced_filterMap Finding.ofStep?_unplaced, hhistory,
      ← Finding.map_unplaced_filterMap Finding.ofStep?_unplaced]
  · show (script.callSites.filterMap Finding.ofCall?).map Finding.unplaced =
      (script'.callSites.filterMap Finding.ofCall?).map Finding.unplaced
    rw [Finding.map_unplaced_filterMap Finding.ofCall?_unplaced, h.callSites hscript hscript',
      ← Finding.map_unplaced_filterMap Finding.ofCall?_unplaced]

/-- **Blanks and comments change nothing but places.**  Of two texts with the same lexemes either both
are scripts or none is.  If none is, both fail for the same reason and at the same token.  If both
are, they have the same expressions, leave the same bindings, and give rise to the same warnings and
infos, one by one, but for the places of these. -/
theorem check_respaced (checker : Checker) {source source' : String} {tokens tokens' : List Token}
    (hscan : Token.scan source = .ok tokens) (hscan' : Token.scan source' = .ok tokens')
    (h : tokens.map Token.toLexeme = tokens'.map Token.toLexeme) :
    (∃ refusal : Refusal, refusal.index < tokens.length ∧
      Script.read source = .error (Script.faultOf tokens.toArray refusal) ∧
      Script.read source' = .error (Script.faultOf tokens'.toArray refusal)) ∨
    (∃ script script', Script.read source = .ok script ∧ Script.read source' = .ok script' ∧
      script.expressions = script'.expressions ∧
      let outcome := checker.check source
      let outcome' := checker.check source'
      outcome.bindings = outcome'.bindings ∧
      outcome.warnings.map Finding.unplaced = outcome'.warnings.map Finding.unplaced ∧
      outcome.infos.map Finding.unplaced = outcome'.infos.map Finding.unplaced) := by
  rcases Script.read_respaced hscan hscan' h with
    ⟨script, script', hread, hread', hrespaced⟩ | hrefused
  · refine .inr ⟨script, script', hread, hread', hrespaced.expressions, ?_⟩
    have hcheck := checker.checkScript_respaced hrespaced (Script.sound_of_read hread)
      (Script.sound_of_read hread')
    simpa only [Checker.check, hread, hread'] using hcheck
  · exact .inl hrefused

/-- A drift over two lines, and a call; the other text has blanks in other places, and a comment. -/
theorem check_respaced_comment :
    ∃ script script', Script.read "x <- 1L\nx <- mean('a')" = .ok script ∧
      Script.read "x<-1L  # one\n  x\t<- mean( 'a')" = .ok script' ∧
      script.expressions = script'.expressions ∧
      ((Checker.mk .empty false).check "x <- 1L\nx <- mean('a')").warnings.map Finding.unplaced =
        ((Checker.mk .empty false).check "x<-1L  # one\n  x\t<- mean( 'a')").warnings.map
          Finding.unplaced := by
  obtain ⟨script, hread⟩ := Script.exists_read_of_isOk
    (show (Script.read "x <- 1L\nx <- mean('a')").isOk = true by decide +kernel)
  obtain ⟨script', hread'⟩ := Script.exists_read_of_isOk
    (show (Script.read "x<-1L  # one\n  x\t<- mean( 'a')").isOk = true by decide +kernel)
  obtain ⟨row, hscan, -⟩ := Script.exists_row_of_read hread
  obtain ⟨row', hscan', -⟩ := Script.exists_row_of_read hread'
  have hsame : (Token.scan "x <- 1L\nx <- mean('a')").map (List.map Token.toLexeme) =
      (Token.scan "x<-1L  # one\n  x\t<- mean( 'a')").map (List.map Token.toLexeme) := by
    decide +kernel
  rw [hscan, hscan'] at hsame
  rcases check_respaced ⟨.empty, false⟩ hscan hscan' (Except.ok.inj hsame) with
    ⟨refusal, -, hrefused, -⟩ | ⟨first, second, hfirst, hsecond, hexpressions, -, hwarnings, -⟩
  · rw [hread] at hrefused
    cases hrefused
  · exact ⟨first, second, hfirst, hsecond, hexpressions, hwarnings⟩

end TypeDrift
