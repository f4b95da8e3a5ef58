import TypeDrift.Proofs.Check.Messages

/-! # Reading a report back

A report on paper has a title for each gravity, and a line for each finding below it.  A message could
pass for the end of its line, and for another finding or another title behind that, only if there was a
line break in it, and there is none (`oneLine_message`).

A finding is then read back from its line (`line_append_inj`), and the findings from the lines below a
title, which no line is followed by that could be one more (`lines_append_inj`).  A section is told from
what follows it in the same way, whether it is left out or not (`sectionOr_append_inj`).  The only thing
that a report does not tell is how many infos there are when there are none or too many
(`Checker.report_determines_findings`).
-/
namespace TypeDrift

open Text

/-! ## What is read back from a text -/

namespace Text

theorem notMem_toString {c : Char} (hc : c.isDigit = false) (number : Nat) :
    c ∉ (toString number).toList := fun hmem => by
  rw [isDigit_of_mem_toString hmem] at hc
  cases hc

theorem eq_of_toString_eq {m n : Nat} (h : toString m = toString n) : m = n := by
  have hvalue (number : Nat) : Nat.ofDigitChars 10 (toString number).toList 0 = number := by
    rw [Nat.toString_eq_repr, Nat.toList_repr,
      Nat.ofDigitChars_toDigits (by decide) (by decide)]
  rw [← hvalue m, h, hvalue n]

/-- What stands before the first mark is told apart from what stands behind it. -/
theorem append_cons_inj {mark : Char} {a b r s : List Char} (ha : mark ∉ a) (hb : mark ∉ b)
    (h : a ++ mark :: r = b ++ mark :: s) : a = b ∧ r = s := by
  have hbefore {cs : List Char} (hcs : mark ∉ cs) (rest : List Char) :
      (cs ++ mark :: rest).takeWhile (· != mark) = cs := by
    rw [takeWhile_append_stop (p := (· != mark)) (bne_self_eq_false mark), List.takeWhile_eq_self_iff]
    intro c hc
    exact bne_iff_ne.mpr fun heq => hcs (heq ▸ hc)
  have heq : a = b := by rw [← hbefore ha r, h, hbefore hb s]
  subst heq
  exact ⟨rfl, (List.cons.inj (List.append_cancel_left h)).2⟩

end Text

/-! ## Reading lines -/

namespace Finding

/-- What a report tells of a finding. -/
def told (finding : Finding) : Position × String := (finding.place, finding.message)

/-- The line of a finding in a report. -/
def line (finding : Finding) : List Char := ("  " ++ finding.text ++ "\n").toList

theorem line_eq (finding : Finding) : finding.line =
    ' ' :: ' ' :: ((toString finding.place.line).toList ++ ':' ::
      ((toString finding.place.column).toList ++ ' ' :: '-' :: ' ' ::
        (finding.message.toList ++ ['\n']))) := by
  simp [line, text]

variable {a b : Finding} {r s : List Char}

/-- A finding is read back from its line. -/
theorem line_append_inj (ha : OneLine a.message) (hb : OneLine b.message)
    (h : a.line ++ r = b.line ++ s) : a.told = b.told ∧ r = s := by
  have hdigits {c : Char} (hc : c.isDigit = false) (number : Nat) :
      c ∉ (toString number).toList := notMem_toString hc number
  simp only [line_eq, List.cons_append, List.append_assoc, List.nil_append, List.cons.injEq,
    true_and] at h
  obtain ⟨hline, h⟩ := append_cons_inj (hdigits rfl _) (hdigits rfl _) h
  obtain ⟨hcolumn, h⟩ := append_cons_inj (hdigits rfl _) (hdigits rfl _) h
  simp only [List.cons.injEq, true_and] at h
  obtain ⟨hmessage, hrest⟩ := append_cons_inj (ha.notMem rfl) (hb.notMem rfl) h
  rw [String.toList_inj] at hline hcolumn hmessage
  have hplace : a.place = b.place := by
    change Position.mk a.place.line a.place.column = Position.mk b.place.line b.place.column
    rw [eq_of_toString_eq hline, eq_of_toString_eq hcolumn]
  exact ⟨Prod.ext hplace hmessage, hrest⟩

end Finding

namespace Outcome

/-- The lines of findings. -/
def lines (findings : List Finding) : List Char := findings.flatMap Finding.line

variable {fs gs : List Finding} {r s : List Char}

/-- Findings are read back from their lines: a line is told from what follows them by its blanks. -/
theorem lines_append_inj (hf : ∀ finding ∈ fs, OneLine finding.message)
    (hg : ∀ finding ∈ gs, OneLine finding.message) (hr : r.head? ≠ some ' ') (hs : s.head? ≠ some ' ')
    (h : lines fs ++ r = lines gs ++ s) : fs.map Finding.told = gs.map Finding.told ∧ r = s := by
  have hblank (finding : Finding) (rest : List Char) :
      (finding.line ++ rest).head? = some ' ' := by rw [Finding.line_eq]; rfl
  induction fs generalizing gs with
  | nil =>
    cases gs with
    | nil => exact ⟨rfl, h⟩
    | cons b gs =>
      have h : r = b.line ++ (lines gs ++ s) := by simpa [lines] using h
      exact absurd (h ▸ hblank b _) hr
  | cons a fs ih =>
    cases gs with
    | nil =>
      have h : a.line ++ (lines fs ++ r) = s := by simpa [lines] using h
      exact absurd (h ▸ hblank a _) hs
    | cons b gs =>
      have h : a.line ++ (lines fs ++ r) = b.line ++ (lines gs ++ s) := by simpa [lines] using h
      obtain ⟨htold, hrest⟩ := Finding.line_append_inj (hf a List.mem_cons_self)
        (hg b List.mem_cons_self) h
      obtain ⟨hmore, hrest⟩ := ih (fun finding hmem => hf finding (List.mem_cons_of_mem _ hmem))
        (fun finding hmem => hg finding (List.mem_cons_of_mem _ hmem)) hrest
      exact ⟨List.cons_eq_cons.mpr ⟨htold, hmore⟩, hrest⟩

/-! ## Reading sections -/

theorem toList_titled (title : String) (findings : List Finding) :
    (titled title findings).toList = title.toList ++ ':' :: '\n' :: lines findings := by
  have hlines : (findings.map fun finding => "  " ++ finding.text ++ "\n").flatMap String.toList =
      lines findings := List.flatMap_map ..
  rw [titled, String.toList_append, String.toList_append, String.toList_join, hlines,
    List.append_assoc]
  rfl

/-- A section, or a text in its place if there is nothing in it. -/
def sectionOr (nothing title : String) (findings : List Finding) : String :=
  if findings.isEmpty then nothing else titled title findings

/-- A section is read back, if its title is not what stands there without it. -/
theorem sectionOr_append_inj {nothing title : String} (hf : ∀ finding ∈ fs, OneLine finding.message)
    (hg : ∀ finding ∈ gs, OneLine finding.message) (hr : r.head? ≠ some ' ') (hs : s.head? ≠ some ' ')
    (hr' : ¬title.toList <+: nothing.toList ++ r) (hs' : ¬title.toList <+: nothing.toList ++ s)
    (h : (sectionOr nothing title fs).toList ++ r = (sectionOr nothing title gs).toList ++ s) :
    fs.map Finding.told = gs.map Finding.told ∧ r = s := by
  have hprefix (findings : List Finding) (rest : List Char) :
      title.toList <+: (titled title findings).toList ++ rest := by
    rw [toList_titled, List.append_assoc]
    exact List.prefix_append _ _
  unfold sectionOr at h
  split at h
  · next hfs =>
    split at h
    · next hgs =>
      rw [List.isEmpty_iff] at hfs hgs
      exact ⟨by rw [hfs, hgs], List.append_cancel_left h⟩
    · exact absurd (h ▸ hprefix gs s) hr'
  · split at h
    · exact absurd (h ▸ hprefix fs r) hs'
    · simp only [toList_titled, List.append_assoc, List.cons_append, List.append_cancel_left_eq,
        List.cons.injEq, true_and] at h
      exact lines_append_inj hf hg hr hs h

/-- A section that is left out if there is nothing in it. -/
def optional (title : String) (findings : List Finding) : String :=
  sectionOr "" ("\n" ++ title) findings

theorem optional_cases (title : String) (findings : List Finding) :
    (optional title findings).toList = [] ∨
      (optional title findings).toList = '\n' :: (title.toList ++ ':' :: '\n' :: lines findings) := by
  rw [optional, sectionOr]
  split
  · exact .inl rfl
  · rw [toList_titled, String.toList_append]
    exact .inr rfl

/-- No line of a finding begins behind a section. -/
theorem head?_optional_append (title : String) (findings : List Finding) (hr : r.head? ≠ some ' ') :
    ((optional title findings).toList ++ r).head? ≠ some ' ' := by
  rcases optional_cases title findings with hnone | hsome
  · rwa [hnone, List.nil_append]
  · rw [hsome]
    exact fun heq => absurd (Option.some.inj heq) (by decide)

/-- The infos that a report lists. -/
def listedInfos (outcome : Outcome) : List Finding :=
  if 1 ≤ outcome.infos.length ∧ outcome.infos.length ≤ mostInfos then outcome.infos else []

/-- A report says nothing of infos: there are none, or too many. -/
def HidesInfos (outcome : Outcome) : Prop :=
  outcome.infos.length = 0 ∨ mostInfos < outcome.infos.length

theorem report_eq (outcome : Outcome) : outcome.report =
    "Type Check Results\n==================\n\n" ++
      (sectionOr "No errors found\n" "Errors" outcome.errors ++
        (optional "Warnings" outcome.warnings ++ optional "Info" outcome.listedInfos)) := by
  have hoptional (title : String) (findings : List Finding) : optional title findings =
      if findings.isEmpty then "" else "\n" ++ titled title findings := by
    have htitled : titled ("\n" ++ title) findings = "\n" ++ titled title findings := by
      rw [titled, titled, String.append_assoc, String.append_assoc, String.append_assoc]
    rw [optional, sectionOr, htitled]
  have hinfos : optional "Info" outcome.listedInfos =
      if 1 ≤ outcome.infos.length ∧ outcome.infos.length ≤ mostInfos then
        "\n" ++ titled "Info" outcome.infos else "" := by
    rw [hoptional, listedInfos]
    split
    · next hlisted => rw [if_neg (by rw [List.isEmpty_iff_length_eq_zero]; omega)]
    · rfl
  have hreport : outcome.report = "Type Check Results\n==================\n\n" ++
      sectionOr "No errors found\n" "Errors" outcome.errors ++
        (if outcome.warnings.isEmpty then "" else "\n" ++ titled "Warnings" outcome.warnings) ++
        if 1 ≤ outcome.infos.length ∧ outcome.infos.length ≤ mostInfos then
          "\n" ++ titled "Info" outcome.infos else "" := by
    unfold report sectionOr
    with_reducible rfl
  rw [hreport, hinfos, hoptional, String.append_assoc, String.append_assoc]

variable {a b : Outcome}

/-- **The report of an outcome determines its findings**, as far as it lists them, if every message is
on one line. -/
theorem report_determines (ha : ∀ finding ∈ a.findings, OneLine finding.message)
    (hb : ∀ finding ∈ b.findings, OneLine finding.message) (h : a.report = b.report) :
    a.errors.map Finding.told = b.errors.map Finding.told ∧
      a.warnings.map Finding.told = b.warnings.map Finding.told ∧
      a.listedInfos.map Finding.told = b.listedInfos.map Finding.told := by
  have hlisted {outcome : Outcome} (hall : ∀ finding ∈ outcome.findings, OneLine finding.message) :
      (∀ finding ∈ outcome.errors, OneLine finding.message) ∧
        (∀ finding ∈ outcome.warnings, OneLine finding.message) ∧
        ∀ finding ∈ outcome.listedInfos, OneLine finding.message := by
    rw [findings, List.forall_mem_append, List.forall_mem_append] at hall
    obtain ⟨⟨herrors, hwarnings⟩, hinfos⟩ := hall
    refine ⟨herrors, hwarnings, fun finding hmem => ?_⟩
    rw [listedInfos] at hmem
    split at hmem
    · exact hinfos finding hmem
    · cases hmem
  obtain ⟨hea, hwa, hia⟩ := hlisted ha
  obtain ⟨heb, hwb, hib⟩ := hlisted hb
  have hend : ([] : List Char).head? ≠ some ' ' := nofun
  have hinfo (outcome : Outcome) :
      ((optional "Info" outcome.listedInfos).toList ++ []).head? ≠ some ' ' :=
    head?_optional_append _ _ hend
  have hwarning (outcome : Outcome) : ((optional "Warnings" outcome.warnings).toList ++
      ((optional "Info" outcome.listedInfos).toList ++ [])).head? ≠ some ' ' :=
    head?_optional_append _ _ (hinfo outcome)
  have hother (outcome : Outcome) : ¬("\n" ++ "Warnings").toList <+:
      "".toList ++ ((optional "Info" outcome.listedInfos).toList ++ []) := by
    rcases optional_cases "Info" outcome.listedInfos with hnone | hsome
    · simp [hnone]
    · simp [hsome]
  have h := congrArg (String.toList · ++ []) h
  simp only [report_eq, String.toList_append, List.append_assoc, List.append_cancel_left_eq] at h
  obtain ⟨herrors, h⟩ := sectionOr_append_inj hea heb (hwarning a) (hwarning b) (by simp) (by simp) h
  obtain ⟨hwarnings, h⟩ :=
    sectionOr_append_inj hwa hwb (hinfo a) (hinfo b) (hother a) (hother b) h
  obtain ⟨hinfos, -⟩ := sectionOr_append_inj hia hib hend hend (by simp) (by simp) h
  exact ⟨herrors, hwarnings, hinfos⟩

theorem infos_of_listedInfos
    (h : a.listedInfos.map Finding.told = b.listedInfos.map Finding.told) :
    a.infos.map Finding.told = b.infos.map Finding.told ∨ a.HidesInfos ∧ b.HidesInfos := by
  have hcases (outcome : Outcome) : outcome.listedInfos = outcome.infos ∧ outcome.infos ≠ [] ∨
      outcome.listedInfos = [] ∧ outcome.HidesInfos := by
    rw [listedInfos, HidesInfos]
    split
    · next hlisted => exact .inl ⟨rfl, List.length_pos_iff.mp hlisted.1⟩
    · exact .inr ⟨rfl, by omega⟩
  rcases hcases a with ⟨ha, hne⟩ | ⟨ha, hides⟩
  · rcases hcases b with ⟨hb, -⟩ | ⟨hb, -⟩
    · rw [ha, hb] at h
      exact .inl h
    · rw [ha, hb] at h
      exact absurd (List.map_eq_nil_iff.mp h) hne
  · rcases hcases b with ⟨hb, hne⟩ | ⟨hb, hides'⟩
    · rw [ha, hb] at h
      exact absurd (List.map_eq_nil_iff.mp h.symm) hne
    · exact .inr ⟨hides, hides'⟩

end Outcome

/-- **A report can be read back.**  No message of a check has a line break in it; and of whatever two
texts two checks report the same, the errors and the warnings are the same, one by one, in line,
column and message, and so are the infos, unless both reports say nothing of them. -/
theorem Checker.report_determines_findings {checker checker' : Checker}
    (hbuilt : checker.registry.Built) (hbuilt' : checker'.registry.Built) (source source' : String) :
    (∀ finding ∈ (checker.check source).findings,
      '\n' ∉ finding.message.toList ∧ '\r' ∉ finding.message.toList) ∧
    ((checker.check source).report = (checker'.check source').report →
      (checker.check source).errors.map Finding.told =
        (checker'.check source').errors.map Finding.told ∧
      (checker.check source).warnings.map Finding.told =
        (checker'.check source').warnings.map Finding.told ∧
      ((checker.check source).infos.map Finding.told =
          (checker'.check source').infos.map Finding.told ∨
        (checker.check source).HidesInfos ∧ (checker'.check source').HidesInfos)) := by
  have hone : ∀ finding ∈ (checker.check source).findings, OneLine finding.message :=
    fun _ hmem => oneLine_message hbuilt hmem
  have hone' : ∀ finding ∈ (checker'.check source').findings, OneLine finding.message :=
    fun _ hmem => oneLine_message hbuilt' hmem
  refine ⟨fun finding hmem => ?_, fun h => ?_⟩
  · exact ⟨(hone finding hmem).notMem rfl, (hone finding hmem).notMem rfl⟩
  · obtain ⟨herrors, hwarnings, hinfos⟩ := Outcome.report_determines hone hone' h
    exact ⟨herrors, hwarnings, Outcome.infos_of_listedInfos hinfos⟩

/-- Two texts with one bracket too many in the same place, one of them behind a string that goes on over
two lines. -/
theorem Checker.report_determines_findings_bracket :
    let checker := Checker.ofTagsLenient ["widget"] false
    let source := "x <- 'a\nb')"
    let source' := "mean(1L,\n2))"
    checker.registry.Built ∧
      (checker.check source).errors.map Finding.told =
        [(⟨0, 0⟩, "unexpected ')' at line 2, column 3")] ∧
      (checker.check source).report = (checker.check source').report ∧
      (checker.check source).errors.map Finding.told =
        (checker.check source').errors.map Finding.told := by
  intro checker source source'
  have hbuilt : checker.registry.Built := Registry.built_ofTagsLenient ["widget"]
  have hreport : (checker.check source).report = (checker.check source').report := by
    decide +kernel
  obtain ⟨-, hdetermines⟩ := report_determines_findings hbuilt hbuilt source source'
  exact ⟨hbuilt, by decide +kernel, hreport, (hdetermines hreport).1⟩

end TypeDrift
