import CalcLint.Proofs.JsonText
import CalcLint.Proofs.ReportedFailures

/-!
# One report in four modes

A check reports as text or as JSON, and in the order of the rules or in that of positions. The
format changes how a finding is written, and the order where it stands among those of its file. What
is found, file after file, and the exit code stay the same.
-/
namespace CalcLint

/-- The value behind the given names, from object to object. -/
def JsonTree.at? : List String → JsonTree → Option JsonTree
  | [], tree => some tree
  | name :: more, .object members => (members.lookup name).bind (JsonTree.at? more)
  | _ :: _, _ => none

/-- A line that says what a record says: the same path, severity, code and message, and a place that
is counted from one instead of from zero. -/
inductive SameFact : JsonTree → String → Prop
  | mk {record : JsonTree} {path severity code message : String} {line column : Nat}
      (hpath : record.at? ["path"] = some (.string path))
      (hseverity : record.at? ["severity"] = some (.string severity))
      (hcode : record.at? ["code"] = some (.string code))
      (hmessage : record.at? ["message"] = some (.string message))
      (hline : record.at? ["range", "start", "line"] = some (.number line))
      (hcolumn : record.at? ["range", "start", "character"] = some (.number column)) :
      SameFact record s!"{path}:{line + 1}:{column + 1}: {severity} {code} {message}"

theorem sameFact_ofDiagnostic (path : String) (d : Diagnostic) :
    SameFact (JsonTree.ofDiagnostic path d) (diagnosticLine path d) :=
  .mk rfl rfl rfl rfl rfl rfl

/-- The text of a list of records belongs to no other list. -/
theorem unlines_records_inj {shown records : List JsonTree}
    (h : unlines [(JsonTree.array shown).pretty 0] = unlines [(JsonTree.array records).pretty 0]) :
    shown = records := by
  have htext : (JsonTree.array shown).pretty 0 = (JsonTree.array records).pretty 0 := by
    simpa [unlines] using h
  exact JsonTree.array.inj (JsonTree.pretty_injective htext)

/-- Files that can all be read are all linted, one after the other. -/
theorem lintFiles_of_readable {host : Host} {disk : Disk} {encoding : Setting} (config : LintConfig)
    {files : List String}
    (h : ∀ file ∈ files, ∃ text, readScript host disk encoding (Path.ofString file) = .ok text) :
    ∃ reports, lintFiles host disk encoding config files = (reports, none) ∧
      List.Forall₂ (fun file report => report.path = file ∧
        ∃ text, readScript host disk encoding (Path.ofString file) = .ok text ∧
          report.diagnostics = lint config text) files reports := by
  induction files with
  | nil => exact ⟨[], rfl, .nil⟩
  | cons file rest ih =>
    obtain ⟨text, htext⟩ := h file List.mem_cons_self
    obtain ⟨reports, hrest, hreports⟩ := ih fun f hf => h f (List.mem_cons_of_mem file hf)
    refine ⟨⟨file, Script.ofText text, lint config text⟩ :: reports, ?_, ?_⟩
    · simp only [lintFiles, htext, hrest]
    · exact .cons ⟨rfl, text, htext, rfl⟩ hreports

theorem FileReport.ordered_perm (report : FileReport) (order : ReportOrder) :
    (report.ordered order).Perm report.diagnostics := by
  cases order with
  | byRule => exact .refl _
  | byPosition => exact List.mergeSort_perm _ _

/-- What is reported on files in a given order, file after file. -/
def findings (order : ReportOrder) (reports : List FileReport) : List (String × List Diagnostic) :=
  reports.map fun report => (report.path, report.ordered order)

theorem any_hasErrors_iff (order : ReportOrder) (reports : List FileReport) :
    reports.any (hasErrors ·.diagnostics) = true ↔
      ∃ entry ∈ findings order reports, ∃ d ∈ entry.2, d.severity = .error := by
  have hreport : ∀ report : FileReport, hasErrors report.diagnostics = true ↔
      ∃ d ∈ report.ordered order, d.severity = .error := by
    intro report
    simp only [hasErrors, List.any_eq_true, beq_iff_eq, (report.ordered_perm order).mem_iff]
  simp [findings, hreport]

def recordsOf (found : List (String × List Diagnostic)) : List JsonTree :=
  found.flatMap fun entry => entry.2.map (JsonTree.ofDiagnostic entry.1)

def linesOf (found : List (String × List Diagnostic)) : List String :=
  found.flatMap fun entry => entry.2.map (diagnosticLine entry.1)

theorem sameFact_recordsOf (found : List (String × List Diagnostic)) :
    List.Forall₂ SameFact (recordsOf found) (linesOf found) := by
  induction found with
  | nil => exact .nil
  | cons entry rest ih =>
    have hentry : List.Forall₂ SameFact (entry.2.map (JsonTree.ofDiagnostic entry.1))
        (entry.2.map (diagnosticLine entry.1)) := by
      rw [List.forall₂_map_left_iff, List.forall₂_map_right_iff, List.forall₂_same]
      intro d _
      exact sameFact_ofDiagnostic entry.1 d
    exact List.rel_append hentry ih

theorem textReport_eq (order : ReportOrder) (reports : List FileReport) :
    textReport order reports = unlines (linesOf (findings order reports)) := by
  rw [textReport, linesOf, findings, List.flatMap_map]

theorem jsonReport_eq (order : ReportOrder) (reports : List FileReport) :
    jsonReport order reports =
      unlines [(JsonTree.array (recordsOf (findings order reports))).pretty 0] := by
  rw [jsonReport, recordsOf, findings, List.flatMap_map]

/-- What a check prints on files that can all be read, and how it ends. -/
theorem outcome_of_check {host : Host} {disk : Disk} {invocation : Invocation} {files : List String}
    {format : ReportFormat} {order : ReportOrder}
    (hcommand : invocation.command = .check files format order)
    {loaded : LintConfig × List ConfigWarning}
    (hload : loadSetting host disk invocation.config = .ok loaded) {reports : List FileReport}
    (hlint : lintFiles host disk invocation.encoding loaded.1 files = (reports, none)) :
    ∃ outcome, invocation.outcome host disk = .ok outcome ∧
      outcome.exit = (if reports.any (hasErrors ·.diagnostics) then 1 else 0) ∧
      outcome.stdout = match format with
        | .text => unlines (linesOf (findings order reports))
        | .json => unlines [(JsonTree.array (recordsOf (findings order reports))).pretty 0] := by
  have hrun := Invocation.run_loaded hload
  rw [hcommand] at hrun
  simp only [Command.run, checkCommand, hlint] at hrun
  obtain ⟨log, houtcome⟩ :=
    @Invocation.outcome_of_ending_ok host disk invocation _ (by rw [hrun]; rfl)
  refine ⟨_, houtcome, rfl, ?_⟩
  rw [hrun]
  cases format with
  | text => exact textReport_eq order reports
  | json => exact jsonReport_eq order reports

/-- A check reports the same facts in every mode. When its configuration loads and its files can be
read, there is one exit code for all modes, which says whether an error is reported. Each file has
the same diagnostics in both orders. The lines of a text report say one by one what the records of
the JSON report in that order say, and these are the only ones to which its text belongs. -/
theorem check_reports_same_facts {host : Host} {disk : Disk} {config encoding : Setting}
    {files : List String} {loaded : LintConfig × List ConfigWarning}
    (hload : loadSetting host disk config = .ok loaded)
    (hread : ∀ file ∈ files,
      ∃ text, readScript host disk encoding (Path.ofString file) = .ok text) :
    ∃ (exit : Nat) (found : ReportOrder → List (String × List Diagnostic)),
      (∀ order, exit =
        if ∃ entry ∈ found order, ∃ d ∈ entry.2, d.severity = .error then 1 else 0) ∧
      (∀ order, List.Forall₂ (fun file entry => entry.1 = file ∧
        ∃ text, readScript host disk encoding (Path.ofString file) = .ok text ∧
          entry.2.Perm (lint loaded.1 text)) files (found order)) ∧
      List.Forall₂ (fun entry entry' => entry.1 = entry'.1 ∧ entry.2.Perm entry'.2)
        (found .byRule) (found .byPosition) ∧
      ∀ order, ∃ lines,
        List.Forall₂ SameFact (recordsOf (found order)) lines ∧
        (∀ arguments verbose, Invocation.parse arguments =
            .ok { verbose, config, encoding, command := .check files .json order } →
          ∃ outcome, run host disk arguments = .ok outcome ∧ outcome.exit = exit ∧
            ∀ shown, outcome.stdout = unlines [(JsonTree.array shown).pretty 0] ↔
              shown = recordsOf (found order)) ∧
        ∀ arguments verbose, Invocation.parse arguments =
            .ok { verbose, config, encoding, command := .check files .text order } →
          ∃ outcome, run host disk arguments = .ok outcome ∧ outcome.exit = exit ∧
            outcome.stdout = unlines lines := by
  obtain ⟨reports, hlint, hreports⟩ := lintFiles_of_readable loaded.1 hread
  refine ⟨if reports.any (hasErrors ·.diagnostics) then 1 else 0,
    fun order => findings order reports, ?_, ?_, ?_, ?_⟩
  · intro order
    simp only [any_hasErrors_iff order]
  · intro order
    apply List.forall₂_map_right_iff.mpr
    apply hreports.imp
    rintro file report ⟨hpath, text, htext, hdiagnostics⟩
    exact ⟨hpath, text, htext, hdiagnostics ▸ report.ordered_perm order⟩
  · apply List.forall₂_map_left_iff.mpr
    apply List.forall₂_map_right_iff.mpr
    apply List.forall₂_same.mpr
    intro report _
    exact ⟨rfl, (report.ordered_perm .byPosition).symm⟩
  · intro order
    refine ⟨linesOf (findings order reports), sameFact_recordsOf _, ?_, ?_⟩
    · intro arguments verbose hparse
      obtain ⟨outcome, houtcome, hexit, hstdout⟩ := @outcome_of_check host disk
        { verbose, config, encoding, command := .check files .json order } files .json order rfl
        loaded hload reports hlint
      refine ⟨outcome, (run_of_parse hparse).trans houtcome, hexit, fun shown => ?_⟩
      rw [hstdout]
      constructor
      · exact fun h => (unlines_records_inj h).symm
      · rintro rfl
        rfl
    · intro arguments verbose hparse
      obtain ⟨outcome, houtcome, hexit, hstdout⟩ := @outcome_of_check host disk
        { verbose, config, encoding, command := .check files .text order } files .text order rfl
        loaded hload reports hlint
      exact ⟨outcome, (run_of_parse hparse).trans houtcome, hexit, hstdout⟩

/-- A file with errors between two mentions of one with a warning: the errors decide on the exit
code in all modes. -/
theorem check_reports_errors_amid_warnings :
    ∃ text json,
      run .bare (FileTree.read ⟨[(["a"], some (encodeUtf8 "x(a,)".toList)),
        (["b"], some (encodeUtf8 "ENDIF\nFIX".toList))]⟩) ["check", "a", "b", "a"] = .ok text ∧
      run .bare (FileTree.read ⟨[(["a"], some (encodeUtf8 "x(a,)".toList)),
        (["b"], some (encodeUtf8 "ENDIF\nFIX".toList))]⟩)
        ["check", "--format", "json", "--sort", "position", "a", "b", "a"] = .ok json ∧
      text.exit = 1 ∧ json.exit = 1 ∧
      text.stdout = unlines ["a:1:4: warning trailingComma Trailing comma before closing bracket.",
        "b:2:1: error missingEndfix Missing ENDFIX for this FIX.",
        "b:1:1: error unmatchedEndif Unmatched ENDIF: no open IF.",
        "a:1:4: warning trailingComma Trailing comma before closing bracket."] := by
  have hread : ∀ file ∈ ["a", "b", "a"], ∃ text,
      readScript .bare (FileTree.read ⟨[(["a"], some (encodeUtf8 "x(a,)".toList)),
        (["b"], some (encodeUtf8 "ENDIF\nFIX".toList))]⟩) .absent (Path.ofString file) =
          .ok text := by
    have hwarning : readScript .bare (FileTree.read ⟨[(["a"], some (encodeUtf8 "x(a,)".toList)),
        (["b"], some (encodeUtf8 "ENDIF\nFIX".toList))]⟩) .absent (Path.ofString "a") =
          .ok "x(a,)".toList := by decide +kernel
    have herror : readScript .bare (FileTree.read ⟨[(["a"], some (encodeUtf8 "x(a,)".toList)),
        (["b"], some (encodeUtf8 "ENDIF\nFIX".toList))]⟩) .absent (Path.ofString "b") =
          .ok "ENDIF\nFIX".toList := by decide +kernel
    simp only [List.forall_mem_cons, List.not_mem_nil, false_imp_iff, implies_true, and_true]
    exact ⟨⟨_, hwarning⟩, ⟨_, herror⟩, ⟨_, hwarning⟩⟩
  have htext : Invocation.parse ["check", "a", "b", "a"] =
      .ok { command := .check ["a", "b", "a"] .text .byRule } := by decide +kernel
  have hjson : Invocation.parse ["check", "--format", "json", "--sort", "position", "a", "b", "a"] =
      .ok { command := .check ["a", "b", "a"] .json .byPosition } := by decide +kernel
  have hprinted : (run .bare (FileTree.read ⟨[(["a"], some (encodeUtf8 "x(a,)".toList)),
      (["b"], some (encodeUtf8 "ENDIF\nFIX".toList))]⟩) ["check", "a", "b", "a"]).toOption.map
        (fun outcome => (outcome.exit, outcome.stdout)) =
      some (1, unlines ["a:1:4: warning trailingComma Trailing comma before closing bracket.",
        "b:2:1: error missingEndfix Missing ENDFIX for this FIX.",
        "b:1:1: error unmatchedEndif Unmatched ENDIF: no open IF.",
        "a:1:4: warning trailingComma Trailing comma before closing bracket."]) := by
    decide +kernel
  obtain ⟨exit, _, _, _, _, hmodes⟩ :=
    @check_reports_same_facts _ _ .absent .absent ["a", "b", "a"] ({}, []) rfl hread
  obtain ⟨_, _, _, htexts⟩ := hmodes .byRule
  obtain ⟨_, _, hjsons, _⟩ := hmodes .byPosition
  obtain ⟨text, hrun, hexit, -⟩ := htexts _ _ htext
  obtain ⟨json, hrun', hexit', -⟩ := hjsons _ _ hjson
  rw [hrun, Except.toOption, Option.map_some, Option.some.injEq, Prod.mk.injEq] at hprinted
  exact ⟨text, json, hrun, hrun', hprinted.1, hexit'.trans (hexit.symm.trans hprinted.1),
    hprinted.2⟩

end CalcLint
