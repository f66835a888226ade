import CalcLint.Proofs.ChainGrammar
import CalcLint.Proofs.CommaLook
import CalcLint.Proofs.FixRun
import CalcLint.Proofs.MisplacedCommas
import Mathlib

/-!
# Where diagnostics point

A keyword found by its pass stands where the pass says, and so does a misplaced comma. The stack
machines hand on the keywords they are given, each under a specification made for its kind. So every
diagnostic stands at its own text, inside one line, and none of the checks that refuse a place or a
line can be met in a lint run or a run of fixes.
-/
namespace CalcLint

/-- The characters that a range on one line covers. -/
def covered (text : Text) (r : Range) : Line :=
  ((lineAt text r.start.line).drop r.start.character).take (r.stop.character - r.start.character)

/-- A range inside one line of a text that covers at least one character. -/
structure Range.InLine (text : Text) (r : Range) : Prop where
  single : r.isSingleLine = true
  line_lt : r.start.line < (lines text).length
  start_lt : r.start.character < r.stop.character
  stop_le : r.stop.character ≤ (lineAt text r.start.line).length

/-- The keyword that each specification about blocks and chains is about. -/
def keywordSpecs : List (Spec × Keyword) :=
  [(.missingEndfix, .fix), (.unmatchedEndfix, .endfix), (.missingEndif, .ifHead),
    (.unmatchedEndif, .endif), (.unexpectedElseif, .elseIf), (.unexpectedElse, .elseArm),
    (.duplicateElse, .elseArm)]

/-- The texts that a specification may be reported at: its keyword in any letter case, a comma, or
two commas with blanks between them. -/
inductive Shows : Spec → Line → Prop
  | keyword {spec : Spec} {k : Keyword} {lexeme : Line} (hspec : (spec, k) ∈ keywordSpecs)
      (hlexeme : lexeme.map Char.toUpper = k.spelling) : Shows spec lexeme
  | trailing : Shows .trailingComma [',']
  | single : Shows .duplicateComma [',']
  | pair {blanks : Line} (hblank : ∀ c ∈ blanks, isBlank c = true) :
      Shows .duplicateComma (',' :: (blanks ++ [',']))

theorem inLine_onLine {text : Text} {line : Line} {number column width : Nat}
    (hline : (lines text)[number]? = some line) (hpos : 0 < width)
    (hle : column + width ≤ line.length) :
    (Range.onLine number column width).InLine text ∧
      covered text (Range.onLine number column width) = (line.drop column).take width := by
  have hat : lineAt text number = line := by rw [lineAt, hline, Option.getD_some]
  obtain ⟨hlt, _⟩ := List.getElem?_eq_some_iff.mp hline
  refine ⟨⟨by simp [Range.onLine, Range.isSingleLine], hlt, ?_, ?_⟩, ?_⟩
  · show column < column + width
    omega
  · show column + width ≤ (lineAt text number).length
    rw [hat]
    exact hle
  · show ((lineAt text number).drop column).take (column + width - column) = _
    rw [hat, Nat.add_sub_cancel_left]

/-- A keyword covers its own spelling. -/
theorem token_place {text : Text} {t : Token} (h : t ∈ scan text) :
    t.range.InLine text ∧ (covered text t.range).map Char.toUpper = t.kind.spelling := by
  obtain ⟨line, hline, hword⟩ := mem_scan_iff.mp h
  have hlength := lexeme_length_of_mem_scan h
  have hpos := t.kind.width_pos
  have hwidth : min t.kind.width (line.length - t.column) = t.kind.width := by
    rw [← List.length_drop, ← List.length_take, ← hword.lexeme, hlength]
  obtain ⟨hin, hcovered⟩ :=
    @inLine_onLine text line t.line t.column t.lexeme.length hline (by omega) (by omega)
  refine ⟨hin, ?_⟩
  rw [Token.range, hcovered, hlength, ← hword.lexeme, hword.spelling]

/-- The pair check for blocks reports keywords of the stream, each under a specification for its
kind. -/
theorem block_fault {tokens : List Token} {fault : Spec × Token}
    (h : fault ∈ PairCheck.faults {} Token.kind tokens) :
    fault.2 ∈ tokens ∧ (fault.1, fault.2.kind) ∈ keywordSpecs := by
  have hkind := @kind_of_mem_pairFaults Token Token.kind .fix .endfix tokens
  have hsub := @pairFaults_sublist Token Token.kind .fix .endfix tokens
  rw [PairCheck.faults, PairFaults.specified, List.mem_append] at h
  rcases h with h | h
  · obtain ⟨t, ht, rfl⟩ := List.mem_map.mp h
    refine ⟨hsub.1.subset ht, ?_⟩
    show (Spec.unmatchedEndfix, t.kind) ∈ keywordSpecs
    rw [hkind.1 t ht]
    decide
  · obtain ⟨t, ht, rfl⟩ := List.mem_map.mp h
    refine ⟨hsub.2.subset ht, ?_⟩
    show (Spec.missingEndfix, t.kind) ∈ keywordSpecs
    rw [hkind.2 t ht]
    decide

theorem chainVerdict?_keyword {stack : List (OpenIf Token)} {t : Token} {spec : Spec}
    (h : chainVerdict? Token.kind stack t = some spec) : (spec, t.kind) ∈ keywordSpecs := by
  have hkind : ∀ k, t.kind = k → (spec, k) ∈ keywordSpecs → (spec, t.kind) ∈ keywordSpecs := by
    intro k hk hmem
    rw [hk]
    exact hmem
  unfold chainVerdict? at h
  split at h
  · cases h
    exact hkind .elseIf ‹_› (by decide)
  · cases h
    exact hkind .elseArm ‹_› (by decide)
  · split at h
    · cases h
      exact hkind .elseArm ‹_› (by decide)
    · contradiction
  · cases h
    exact hkind .endif ‹_› (by decide)
  · contradiction

theorem chainMarks_keyword {stack : List (OpenIf Token)} {tokens : List Token}
    {fault : Spec × Token} (h : fault ∈ chainMarks Token.kind stack tokens) :
    fault.2 ∈ tokens ∧ (fault.1, fault.2.kind) ∈ keywordSpecs := by
  induction tokens generalizing stack with
  | nil => contradiction
  | cons t rest ih =>
    rw [chainMarks, List.mem_append] at h
    rcases h with h | h
    · obtain ⟨spec, hspec, rfl⟩ := List.mem_map.mp h
      exact ⟨List.mem_cons_self, chainVerdict?_keyword (Option.mem_toList.mp hspec)⟩
    · obtain ⟨hmem, hkeyword⟩ := ih h
      exact ⟨List.mem_cons_of_mem t hmem, hkeyword⟩

/-- The chain check reports keywords of the stream, each under a specification for its kind. -/
theorem chain_fault {tokens : List Token} {fault : Spec × Token}
    (h : fault ∈ chainFaults Token.kind tokens) :
    fault.2 ∈ tokens ∧ (fault.1, fault.2.kind) ∈ keywordSpecs := by
  by_cases hmissing : fault.1 = .missingEndif
  · have hfilter : fault ∈ (chainFaults Token.kind tokens).filter (·.1 = .missingEndif) :=
      List.mem_filter.mpr ⟨h, by simpa using hmissing⟩
    rw [chainFaults_missing] at hfilter
    obtain ⟨t, ht, rfl⟩ := List.mem_map.mp hfilter
    refine ⟨(pairFaults_sublist tokens).2.subset ht, ?_⟩
    show (Spec.missingEndif, t.kind) ∈ keywordSpecs
    rw [(kind_of_mem_pairFaults tokens).2 t ht]
    decide
  · rw [chainFaults, chainFrom_eq, List.mem_append] at h
    rcases h with h | h
    · exact chainMarks_keyword h
    · obtain ⟨frame, _, rfl⟩ := List.mem_map.mp h
      exact absurd rfl hmissing

/-- What a misplaced comma covers, in the line from the comma on. -/
theorem judgeComma_place {enclosed : Bool} {below : List Line} {column : Nat} {after : Line}
    {spot : CommaSpot} (h : judgeComma enclosed below column after = some spot) :
    0 < spot.width ∧ spot.width ≤ (',' :: after).length ∧
      Shows spot.fault.spec ((',' :: after).take spot.width) := by
  have hone : 0 < 1 ∧ 1 ≤ (',' :: after).length := by simp
  unfold judgeComma at h
  split at h
  · rename_i c tail hdrop
    split_ifs at h with hcomma hcloser
    · cases h
      have hafter := @List.takeWhile_append_dropWhile Char isBlank after
      rw [hdrop, hcomma] at hafter
      have hlength : (',' :: (after.takeWhile isBlank ++ [','])).length =
          (after.takeWhile isBlank).length + 2 := by simp
      have hsplit : ',' :: after = (',' :: (after.takeWhile isBlank ++ [','])) ++ tail := by
        conv => lhs; rw [← hafter]
        simp
      refine ⟨Nat.succ_pos _, ?_, ?_⟩
      · rw [hsplit, List.length_append, hlength]
        exact Nat.le_add_right _ _
      · rw [hsplit, List.take_left' hlength]
        exact .pair (fun c hc => List.mem_takeWhile_imp hc)
    · cases h
      exact ⟨hone.1, hone.2, .trailing⟩
  · split at h
    · split_ifs at h
      · cases h
        exact ⟨hone.1, hone.2, .single⟩
      · cases h
        exact ⟨hone.1, hone.2, .trailing⟩
    · contradiction

/-- A misplaced comma covers itself, or itself and the comma behind it. -/
theorem comma_place {text : Text} {issue : CommaIssue} (h : issue ∈ commaIssues text) :
    issue.range.InLine text ∧ Shows issue.fault.spec (covered text issue.range) := by
  obtain ⟨l, c, row, ⟨hrow, hcomma⟩, spot, hspot, rfl⟩ := mem_commaIssues.mp h
  have hline : (lines text)[l]? = some (row.map Prod.fst) := by
    rw [← Mode.map_fst_markedLines .code (lines text), List.getElem?_map]
    exact congrArg _ hrow
  have hdrop : (row.map Prod.fst).drop c = ',' :: (row.drop (c + 1)).map Prod.fst := by
    obtain ⟨hlt, heq⟩ := List.getElem?_eq_some_iff.mp hcomma
    rw [← List.map_drop, List.drop_eq_getElem_cons hlt, heq, List.map_cons]
  obtain ⟨hpos, hwidth, hshows⟩ := judgeComma_place hspot
  have hcolumn := column_of_judgeComma hspot
  rw [← hdrop] at hwidth hshows
  rw [List.length_drop] at hwidth
  obtain ⟨hin, hcovered⟩ :=
    @inLine_onLine text _ l spot.column spot.width hline hpos (by rw [hcolumn]; omega)
  refine ⟨hin, ?_⟩
  show Shows spot.fault.spec (covered text (Range.onLine l spot.column spot.width))
  rw [hcovered, hcolumn]
  exact hshows

/-- What a rule finds stands at its own text. -/
theorem fault_place {kind : RuleKind} {text : Text} {fault : Spec × Range}
    (h : fault ∈ kind.faults text) :
    fault.2.InLine text ∧ Shows fault.1 (covered text fault.2) := by
  have hkeyword : ∀ found : Spec × Token,
      found.2 ∈ scan text ∧ (found.1, found.2.kind) ∈ keywordSpecs →
        found.2.range.InLine text ∧ Shows found.1 (covered text found.2.range) := by
    rintro found ⟨hmem, hspec⟩
    obtain ⟨hin, hspelling⟩ := token_place hmem
    exact ⟨hin, .keyword hspec hspelling⟩
  cases kind with
  | blockBalance =>
    obtain ⟨found, hfound, rfl⟩ := List.mem_map.mp h
    exact hkeyword found (block_fault hfound)
  | chainBalance =>
    obtain ⟨found, hfound, rfl⟩ := List.mem_map.mp h
    exact hkeyword found (chain_fault hfound)
  | commaPlacement =>
    obtain ⟨issue, hissue, rfl⟩ := List.mem_map.mp h
    exact comma_place hissue

theorem exists_fault_of_mem_lint {config : LintConfig} {text : Text} {d : Diagnostic}
    (h : d ∈ lint config text) :
    ∃ kind : RuleKind, ∃ fault ∈ kind.faults text, d.code = fault.1.code ∧ d.range = fault.2 := by
  rw [lint_eq] at h
  obtain ⟨kind, _, hd⟩ := List.mem_flatMap.mp h
  unfold RuleKind.diagnostics at hd
  split at hd
  · obtain ⟨fault, hfault, rfl⟩ := List.mem_map.mp hd
    exact ⟨kind, fault, hfault, rfl, rfl⟩
  · contradiction

/-- A keyword with the coordinates of its place, unchecked. -/
def Token.marker (t : Token) : Marker :=
  ⟨t.kind, t.line, t.column, t.lexeme⟩

@[simp] theorem ofInts_onLine (line column width : Nat) :
    Range.ofInts line column line (column + width) = .ok (Range.onLine line column width) := by
  have hpos : ∀ character : Nat, Position.ofInts line character = .ok ⟨line, character⟩ := by
    intro character
    rw [Position.ofInts, if_neg (by omega)]
    rfl
  have hstop : (column : Int) + width = (column + width : Nat) := by omega
  rw [Range.ofInts, hstop, hpos, hpos]
  show Range.ofPositions ⟨line, column⟩ ⟨line, column + width⟩ = _
  rw [Range.ofPositions, dif_pos (Position.le_of_character_le line (Nat.le_add_right column width))]
  rfl

/-- Reporting with every place checked on the way is never refused for keywords. -/
@[simp] theorem reportMarkerFaults_marker (severity : Option Severity) (rule : Option String)
    (faults : List (Spec × Token)) :
    reportMarkerFaults severity rule (faults.map fun fault => (fault.1, fault.2.marker)) =
      .ok (reportFaults severity rule faults) := by
  induction faults with
  | nil => rfl
  | cons fault rest ih =>
    have hrange : fault.2.marker.range = .ok fault.2.range :=
      ofInts_onLine fault.2.line fault.2.column fault.2.lexeme.length
    rw [reportMarkerFaults] at ih ⊢
    rw [List.map_cons, List.mapM_cons, ih, hrange]
    rfl

theorem block_faults_marker (tokens : List Token) :
    PairCheck.faults {} Marker.kind (tokens.map Token.marker) =
      (PairCheck.faults {} Token.kind tokens).map fun fault => (fault.1, fault.2.marker) := by
  have hmap : pairFaults Marker.kind .fix .endfix (tokens.map Token.marker) =
      ⟨(pairFaults Token.kind .fix .endfix tokens).stray.map Token.marker,
        (pairFaults Token.kind .fix .endfix tokens).unclosed.map Token.marker⟩ :=
    pairFaults_map Token.marker tokens
  simp [PairCheck.faults, hmap, PairFaults.specified, Function.comp_def]

theorem chain_faults_marker (tokens : List Token) :
    chainFaults Marker.kind (tokens.map Token.marker) =
      (chainFaults Token.kind tokens).map fun fault => (fault.1, fault.2.marker) :=
  chainFrom_map Token.marker [] tokens

/-- A lint run with the default rules is not refused, also when they are named or when the scan of
the text is handed in. -/
theorem runLint_eq (config : LintConfig) (text : Text) {script : Option Script}
    {requests : Option (List RuleRequest)} (hscript : script ∈ [none, some (Script.ofText text)])
    (hrequests : requests ∈ [none, some (defaultRules.map .known)]) :
    runLint text (some config) script requests = .ok ⟨Script.ofText text, lint config text⟩ := by
  have haccept : (acceptRules (defaultRules.map .known)).mapError LintError.rule =
      .ok defaultRules := by
    decide
  have hnamed : runLint text (some config) none (some (defaultRules.map .known)) =
      ((acceptRules (defaultRules.map .known)).mapError LintError.rule).bind fun rules =>
        .ok ⟨Script.ofText text, lintScript config rules (Script.ofText text)⟩ := rfl
  have hhanded : ∀ requests, runLint text (some config) (some (Script.ofText text)) requests =
      runLint text (some config) none requests := by
    intro requests
    simp [runLint, Script.ofText]
  have hnone : ∀ requests ∈ [none, some (defaultRules.map .known)],
      runLint text (some config) none requests = .ok ⟨Script.ofText text, lint config text⟩ := by
    intro requests hmem
    simp only [List.mem_cons, List.not_mem_nil, or_false] at hmem
    rcases hmem with rfl | rfl
    · rfl
    · rw [hnamed, haccept]
      rfl
  simp only [List.mem_cons, List.not_mem_nil, or_false] at hscript
  rcases hscript with rfl | rfl
  · exact hnone requests hrequests
  · rw [hhanded]
    exact hnone requests hrequests

/-- A run of fixes gives a result, from a configuration as from a finished lint run. -/
theorem runFix_eq (config : LintConfig) (text : Text) :
    runFix text (some config) none none = .ok (fixResult config text) ∧
      runFix text none none (some ⟨Script.ofText text, lint config text⟩) =
        .ok (fixResult config text) := by
  have happly : applyFixes text (lint config text) = .ok (fixResult config text) :=
    fix_eq config text
  have hdiagnostics : fixDiagnostics text none none
      (some ⟨Script.ofText text, lint config text⟩) = .ok (lint config text) := by
    simp [fixDiagnostics, Script.ofText]
  constructor
  · show (applyFixes text (lint config text)).mapError FixError.line = _
    rw [happly]
    rfl
  · rw [runFix, hdiagnostics]
    show (applyFixes text (lint config text)).mapError FixError.line = _
    rw [happly]
    rfl

/-- The core is total, and every diagnostic points at its own text. Lint runs with the default
rules, runs of fixes and single fixes give a result for every text under every configuration, and so
does a lint run that checks every place before it reports it. A diagnostic has a range inside one
line, and under it stands what its code is about. -/
theorem diagnostics_point_at_their_text (config : LintConfig) (text : Text) :
    (∀ script ∈ [none, some (Script.ofText text)],
      ∀ requests ∈ [none, some (defaultRules.map .known)],
        runLint text (some config) script requests = .ok ⟨Script.ofText text, lint config text⟩) ∧
    (∃ r, runFix text (some config) none none = .ok r ∧
      runFix text none none (some ⟨Script.ofText text, lint config text⟩) = .ok r) ∧
    (∃ mended?, fixLast text (lint config text) = .ok mended?) ∧
    (∀ severity rule,
      reportMarkerFaults severity rule
          (PairCheck.faults {} Marker.kind ((scan text).map Token.marker)) =
        .ok (checkPair {} severity rule (scan text)) ∧
      reportMarkerFaults severity rule
          (chainFaults Marker.kind ((scan text).map Token.marker)) =
        .ok (checkChain severity rule (scan text))) ∧
    (∀ issue ∈ commaIssues text,
      Range.ofInts issue.line issue.column issue.line issue.stop = .ok issue.range) ∧
    ∀ d ∈ lint config text, d.range.InLine text ∧
      ∃ spec, d.code = spec.code ∧ Shows spec (covered text d.range) := by
  refine ⟨?_, ?_, ?_, ?_, ?_, ?_⟩
  · intro script hscript requests hrequests
    exact runLint_eq config text hscript hrequests
  · exact ⟨fixResult config text, runFix_eq config text⟩
  · exact ⟨_, fixLast_eq config text⟩
  · intro severity rule
    rw [block_faults_marker, chain_faults_marker]
    exact ⟨reportMarkerFaults_marker severity rule _, reportMarkerFaults_marker severity rule _⟩
  · intro issue _
    rw [CommaIssue.stop, Int.natCast_add]
    exact ofInts_onLine issue.line issue.column issue.width
  · intro d hd
    obtain ⟨kind, fault, hfault, hcode, hrange⟩ := exists_fault_of_mem_lint hd
    obtain ⟨hin, hshows⟩ := fault_place hfault
    rw [hrange]
    exact ⟨hin, fault.1, hcode, hshows⟩

/-- A closer in mixed case, two commas with a blank between them, and an opener on the last line. -/
theorem diagnostics_point_at_mixed_case :
    (lint {} "eNdIf x(a,\t,b)\nFix".toList).map
        (fun d => (d.code, covered "eNdIf x(a,\t,b)\nFix".toList d.range)) =
      [("missingEndfix", "Fix".toList), ("unmatchedEndif", "eNdIf".toList),
        ("duplicateComma", ",\t,".toList)] ∧
    ∀ d ∈ lint {} "eNdIf x(a,\t,b)\nFix".toList,
      d.range.InLine "eNdIf x(a,\t,b)\nFix".toList := by
  refine ⟨by cbv, fun d hd => ?_⟩
  obtain ⟨_, _, _, _, _, hplaces⟩ :=
    diagnostics_point_at_their_text {} "eNdIf x(a,\t,b)\nFix".toList
  exact (hplaces d hd).1

end CalcLint
