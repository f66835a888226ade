import CalcLint.Proofs.SecondElse
import Mathlib

/-!
# Other defects in a fixed text

Commas are judged as before, with one exception: a comma at the end of an opener's line now sees the
inserted closer below it, where before it may have seen another comma or a bracket. Together with
the laws for closers and conditional chains this says what a run of fixes does to every diagnostic
that it does not mend.
-/
namespace CalcLint

@[simp] theorem commaLine_row (text : Text) (m : Mending) (state : CommaState) (below : List Line) :
    commaLine state (m.row text) below = ([], state) := by
  obtain ⟨inComment, parens, brackets⟩ := state
  cases inComment with
  | false =>
    show commaCode below _ 0 (m.row text) = _
    rw [commaCode_inert_line (fun _ hc => isInert_of_mem_row hc)]
  | true => simp [commaLine]

@[simp] theorem commaLines_rows (text : Text) (ms : List Mending) (state : CommaState) (first : Nat)
    (below : List Line) :
    commaLines state first (ms.map (Mending.row text) ++ below) =
      commaLines state (first + ms.length) below := by
  induction ms generalizing first with
  | nil => rfl
  | cons m more ih =>
    simp [commaLines, ih, Nat.add_right_comm, Nat.add_assoc]

/-- From above, the first thing to be seen in a row is the first letter of its closer. -/
theorem quiet_row (text : Text) (m : Mending) (below : List Line) :
    Quiet (m.row text :: below) := by
  obtain ⟨c, tail, hspell, hblank, hslash, hcomma, hcloser⟩ :
      ∃ c tail, m.closer.spelling = c :: tail ∧ isBlank c = false ∧ c ≠ '/' ∧ c ≠ ',' ∧
        isCloser c = false := by
    cases m.closer <;> exact ⟨_, _, rfl, by decide, by decide, by decide, by decide⟩
  refine ⟨c, ?_, hcomma, hcloser⟩
  have hlook : lookAlong (m.row text) = .found c := by
    rw [Mending.row, lookAlong_blanks (fun _ hc => isBlank_of_mem_indentation hc), hspell,
      lookAlong_found (opensComment_of_ne hslash tail) hblank]
  have hline : lookAlongLine false (m.row text) = .found c := hlook
  rw [nextSignificant?, hline]

@[simp] theorem rowsBelow_eq_nil_iff {text : Text} {ms : List Mending} {number : Nat} :
    rowsBelow text ms number = [] ↔ ms.any (·.opener = number) = false := by
  rw [rowsBelow, List.map_eq_nil_iff, List.filter_eq_nil_iff, List.any_eq_false]

/-- Lines without keywords have no rows, so the look-ahead passes no row before it finds
something. -/
theorem nextSignificant?_withRows {text : Text} {ms : List Mending}
    (hms : ∀ m ∈ ms, tokensOn text m.opener ≠ []) {number : Nat} {document : List Line}
    (h : (lines text).drop number = document) :
    nextSignificant? (stateAt text number).inComment
        (withRows (rowsBelow text ms) number (document.map bare)) =
      nextSignificant? (stateAt text number).inComment (document.map bare) := by
  induction document generalizing number with
  | nil => rfl
  | cons line below ih =>
    obtain ⟨hline, hbelow⟩ := of_drop_eq_cons h
    rw [List.map_cons, withRows, nextSignificant?, nextSignificant?]
    cases hlook : lookAlongLine (stateAt text number).inComment (bare line) with
    | found c => rfl
    | nothing isOpen =>
      have hscan := scanLine_of_lookAlong hlook
      rw [eq_bare (scanLine _) (scanLine_return _)] at hscan
      have hrows : rowsBelow text ms number = [] := by
        rw [rowsBelow_eq_nil_iff, List.any_eq_false]
        intro m hm
        rw [decide_eq_true_eq]
        rintro rfl
        apply hms m hm
        rw [tokensOn_eq hline, hscan, List.map_nil]
      have hstate : (stateAt text (number + 1)).inComment = isOpen := by
        rw [stateAt_succ hline, hscan]
      have hnext := ih hbelow
      rw [hstate] at hnext
      rw [hrows, List.nil_append]
      exact hnext

/-- Whether nothing but blanks stands behind the character at a position, on its line. -/
def endsLine (text : Text) (p : Position) : Bool :=
  ((lineAt text p.line).drop (p.character + 1)).all isBlank

/-- Whether a position ends a line below which a row is inserted. -/
def aboveRow (text : Text) (ms : List Mending) (p : Position) : Bool :=
  endsLine text p && ms.any (·.opener = p.line)

/-- A misplaced comma at its place below the inserted rows. -/
def CommaIssue.moved (ms : List Mending) (issue : CommaIssue) : CommaIssue :=
  { issue with line := issue.line + linesAbove ms issue.line }

@[simp] theorem dangling_bare (line : Line) (spot : CommaSpot) :
    spot.dangling (bare line) = spot.dangling line := by
  apply eq_bare fun line => spot.dangling line
  intro line
  have hreturn : ∀ k, ((['\r'] : Line).drop k).all isBlank = true := by
    intro k
    cases k <;> simp [show isBlank '\r' = true by decide]
  rw [CommaSpot.dangling, List.drop_append, List.all_append, hreturn, Bool.and_true,
    CommaSpot.dangling]

theorem aboveRow_onLine {text : Text} {line : Line} {number : Nat}
    (h : (lines text)[number]? = some line) (ms : List Mending) (spot : CommaSpot) :
    aboveRow text ms (spot.onLine number).range.start =
      (spot.dangling line && ms.any (·.opener = number)) := by
  show (((lineAt text number).drop (spot.column + 1)).all isBlank && _) = _
  rw [lineAt, h, Option.getD_some]
  rfl

/-- The comma pass over one line, with its rows and the mended rest of the document below it. -/
theorem commaLine_withRows {text : Text} {ms : List Mending}
    (hms : ∀ m ∈ ms, tokensOn text m.opener ≠ []) {number : Nat} {line : Line} {below : List Line}
    (h : (lines text).drop number = line :: below) {state : CommaState}
    (hstate : state.inComment = (stateAt text number).inComment) :
    commaLine state (bare line)
        (rowsBelow text ms number ++
          withRows (rowsBelow text ms) (number + 1) (below.map bare)) =
      ((commaLine state (bare line) (below.map bare)).1.filter
          (fun spot => !aboveRow text ms (spot.onLine number).range.start),
        (commaLine state (bare line) (below.map bare)).2) := by
  obtain ⟨hline, hbelow⟩ := of_drop_eq_cons h
  cases hrows : rowsBelow text ms number with
  | nil =>
    have hnone := rowsBelow_eq_nil_iff.mp hrows
    have hkeep : ∀ spot : CommaSpot,
        (!aboveRow text ms (spot.onLine number).range.start) = true := by
      intro spot
      rw [aboveRow_onLine hline, hnone, Bool.and_false]
      rfl
    rw [List.nil_append, List.filter_eq_self.mpr (fun spot _ => hkeep spot)]
    apply Eq.symm
    apply commaLine_congr
    intro hclosed
    have hnext := nextSignificant?_withRows hms hbelow
    have hopen : (stateAt text (number + 1)).inComment = false := by
      rw [commaLine_inComment, hstate, eq_bare (scanLine _) (scanLine_return _)] at hclosed
      rw [stateAt_succ hline]
      exact hclosed
    rw [hopen] at hnext
    exact hnext.symm
  | cons row more =>
    have hsome : ms.any (·.opener = number) = true := by
      by_contra hnone
      rw [rowsBelow_eq_nil_iff.mpr (Bool.eq_false_iff.mpr hnone)] at hrows
      contradiction
    have hquiet : Quiet (row :: more ++
        withRows (rowsBelow text ms) (number + 1) (below.map bare)) := by
      have hmem : row ∈ rowsBelow text ms number := hrows ▸ List.mem_cons_self
      obtain ⟨m, _, rfl⟩ := List.mem_map.mp hmem
      exact quiet_row text m _
    have hlost : ∀ spot : CommaSpot, spot.dangling (bare line) =
        aboveRow text ms (spot.onLine number).range.start := by
      intro spot
      rw [aboveRow_onLine hline, hsome, Bool.and_true, dangling_bare]
    rw [commaLine_quiet hquiet (below.map bare)]
    simp only [hlost]

/-- The comma pass over a document with its rows. -/
theorem commaLines_withRows {text : Text} {ms : List Mending}
    (hms : ∀ m ∈ ms, tokensOn text m.opener ≠ []) {number : Nat} {document : List Line}
    (h : (lines text).drop number = document) {state : CommaState}
    (hstate : state.inComment = (stateAt text number).inComment) :
    (commaLines state (number + linesAbove ms number)
        (withRows (rowsBelow text ms) number (document.map bare))).1 =
      ((commaLines state number (document.map bare)).1.filter
        (fun issue => !aboveRow text ms issue.range.start)).map (CommaIssue.moved ms) := by
  induction document generalizing number state with
  | nil => rfl
  | cons line below ih =>
    obtain ⟨hline, hbelow⟩ := of_drop_eq_cons h
    have hnext : number + linesAbove ms number + 1 + (ms.filter (·.opener = number)).length =
        number + 1 + linesAbove ms (number + 1) := by
      rw [linesAbove_succ]
      omega
    have hstate' : (commaLine state (bare line) (below.map bare)).2.inComment =
        (stateAt text (number + 1)).inComment := by
      rw [commaLine_inComment, hstate, eq_bare (scanLine _) (scanLine_return _),
        stateAt_succ hline]
    rw [List.map_cons, withRows, commaLines, commaLine_withRows hms h hstate, rowsBelow,
      commaLines_rows, hnext, ih hbelow hstate', commaLines, List.filter_append, List.map_append,
      List.filter_map, List.map_map]
    rfl

theorem commaIssues_applyEdits {text : Text} {ms : List Mending} (hplaced : ∀ m ∈ ms, m.Placed text)
    (hms : ∀ m ∈ ms, tokensOn text m.opener ≠ []) :
    commaIssues (applyEdits text (ms.map (Mending.edit text))) =
      ((commaIssues text).filter fun issue => !aboveRow text ms issue.range.start).map
        (CommaIssue.moved ms) := by
  have hnone : linesAbove ms 0 = 0 := by simp [linesAbove]
  have hlines := @commaLines_withRows text ms hms 0 (lines text) List.drop_zero {} rfl
  rw [hnone] at hlines
  rw [commaIssues_eq_bareLines, bareLines_applyEdits hplaced, commaIssues_eq_bareLines]
  exact hlines

theorem diagnosticsOf_comma {spec : Spec} (h : spec ∈ RuleKind.commaPlacement.specs)
    (config : LintConfig) (text : Text) :
    diagnosticsOf spec (lint config text) =
      if RuleKind.commaPlacement.enabled config then
        ((commaIssues text).filter (·.fault.spec = spec)).map
          fun issue => RuleKind.commaPlacement.report config spec issue.range
      else [] := by
  rw [diagnosticsOf_lint h, RuleKind.faults, List.filter_map, List.map_map]
  rfl

/-- The comma diagnostics of the fixed text are those of the text, less the commas that end a line
above an inserted row. -/
theorem comma_fixedText {spec : Spec} (h : spec ∈ RuleKind.commaPlacement.specs)
    (config : LintConfig) (text : Text) :
    diagnosticsOf spec (lint config (fixedText config text)) =
      ((diagnosticsOf spec (lint config text)).filter
        fun d => !aboveRow text (mendings config text) d.range.start).map
          (Diagnostic.moved (mendings config text)) := by
  have hissues : commaIssues (fixedText config text) =
      ((commaIssues text).filter
        fun issue => !aboveRow text (mendings config text) issue.range.start).map
          (CommaIssue.moved (mendings config text)) := by
    apply commaIssues_applyEdits (fun _ hm => placed_of_mem_mendings hm)
    intro m hm
    obtain ⟨t, ht, hline⟩ := exists_token_of_mem_mendings hm
    exact List.ne_nil_of_mem (List.mem_filter.mpr ⟨ht, decide_eq_true hline⟩)
  rw [diagnosticsOf_comma h, diagnosticsOf_comma h, hissues]
  split
  · rw [List.filter_map, List.filter_filter, List.map_map, List.filter_map, List.filter_filter,
      List.map_map]
    congr 1
    apply List.filter_congr
    intro issue _
    exact Bool.and_comm _ _
  · rfl

/-- What a run of fixes does to the diagnostics that it does not mend. Unmatched closers stay.
Misplaced commas stay, but for those at the end of a line below which a closer is inserted. An
`ELSE` or `ELSEIF` keeps its verdict unless an `ENDIF` is inserted between it and its `IF`, and it
is unexpected exactly if as many `ENDIF`s are inserted above it as `IF`s were open in front of
it. An `ELSE` that is still inside an `IF` is a duplicate exactly if another one in front of it is
now inside the same `IF`. -/
theorem fix_keeps_other_defects (text : Text) :
    ∃ r, fix {} text = .ok r ∧
      (∀ b : Block, diagnosticsOf b.unmatched (lint {} r.fixed) =
        (diagnosticsOf b.unmatched (lint {} text)).map (Diagnostic.moved r.mendings)) ∧
      (∀ spec ∈ RuleKind.commaPlacement.specs, diagnosticsOf spec (lint {} r.fixed) =
        ((diagnosticsOf spec (lint {} text)).filter
          fun d => !aboveRow text r.mendings d.range.start).map (Diagnostic.moved r.mendings)) ∧
      (∀ spec ∈ elseSpecs,
        diagnosticsOf spec (lint {} text) =
          ((scan text).filter fun t => t.verdict? text = some spec).map
            (fun t => RuleKind.chainBalance.report {} spec t.range) ∧
        diagnosticsOf spec (lint {} r.fixed) =
          ((scan text).filter fun t => (t.moved r.mendings).verdict? r.fixed = some spec).map
            (fun t => (RuleKind.chainBalance.report {} spec t.range).moved r.mendings)) ∧
      ∀ t ∈ scan text,
        (¬ Cut text r.mendings t → (t.moved r.mendings).verdict? r.fixed = t.verdict? text) ∧
        (∀ spec, (t.kind, spec) ∈
            [(Keyword.elseIf, Spec.unexpectedElseif), (Keyword.elseArm, Spec.unexpectedElse)] →
          ((t.moved r.mendings).verdict? r.fixed = some spec ↔
            (openIfs text t).length = closersAbove text r.mendings .endif t.line)) ∧
        ((t.moved r.mendings).verdict? r.fixed = some .duplicateElse ↔
          t.kind = .elseArm ∧ ∃ u ∈ tokensBefore text t, u.kind = .elseArm ∧
            ∃ head, (openIfs r.fixed (u.moved r.mendings)).getLast? = some head ∧
              (openIfs r.fixed (t.moved r.mendings)).getLast? = some head) := by
  have henabled : RuleKind.chainBalance.enabled {} = true := by decide
  refine ⟨fixResult {} text, fix_eq {} text, ?_⟩
  rw [mendings_fixResult]
  refine ⟨fun b => unmatched_fixedText {} text b, fun spec h => comma_fixedText h {} text, ?_, ?_⟩
  · intro spec h
    have htext := diagnosticsOf_else h {} text
    have hfixed := else_fixedText h {} text
    rw [if_pos henabled] at htext hfixed
    exact ⟨htext, hfixed⟩
  · intro t ht
    refine ⟨fun hcut => verdict?_fixed ht hcut, ?_, verdict?_duplicate_fixed_iff ht⟩
    intro spec hspec
    have hopen := @openIfs_fixed {} text t ht
    have hverdict :=
      @verdict?_unexpected_iff (fixedText {} text) (t.moved (mendings {} text)) spec hspec
    show (t.moved (mendings {} text)).verdict? (fixedText {} text) = some spec ↔ _
    rw [hverdict]
    omega

/-- An inserted `ENDIF` cuts an `ELSE` off its `IF`, and an inserted `ENDFIX` hides a bracket from a
comma. -/
theorem fix_changes_other_defects :
    (∃ r, fix {} "IF (a)\nELSE\n".toList = .ok r ∧
      diagnosticsOf .unexpectedElse (lint {} "IF (a)\nELSE\n".toList) = [] ∧
      (diagnosticsOf .unexpectedElse (lint {} r.fixed)).length = 1) ∧
    ∃ r, fix {} "FIX(a,\n)".toList = .ok r ∧
      (diagnosticsOf .trailingComma (lint {} "FIX(a,\n)".toList)).length = 1 ∧
      diagnosticsOf .trailingComma (lint {} r.fixed) = [] := by
  refine ⟨⟨_, fix_eq _ _, ?_, ?_⟩, ⟨_, fix_eq _ _, ?_, ?_⟩⟩
  · cbv
  · cbv
  · cbv
  · cbv

end CalcLint
