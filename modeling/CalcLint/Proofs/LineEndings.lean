import CalcLint.Proofs.FixRun
import CalcLint.Proofs.WholeLines
import Mathlib

/-!
# Line feeds and carriage returns

A text may end its lines with a line feed alone or with a carriage return in front of it. Its lines
are the same, so both passes and every rule find the same in it. A run of fixes ends its rows the
way the text does, so it gives the same lines once more: mending and converting the line ends
commute, although every offset behind the first line differs.
-/
namespace CalcLint

/-- A text with a carriage return in front of every line feed. -/
def crlf (text : Text) : Text :=
  text.flatMap fun c => if c = '\n' then LineEnding.crlf.chars else [c]

@[simp] theorem crlf_append (xs ys : Text) : crlf (xs ++ ys) = crlf xs ++ crlf ys :=
  List.flatMap_append

@[simp] theorem crlf_of_not_mem {line : Line} (h : '\n' ∉ line) : crlf line = line := by
  induction line with
  | nil => rfl
  | cons c rest ih =>
    rw [List.mem_cons, not_or] at h
    have hc : c ≠ '\n' := Ne.symm h.1
    rw [crlf, List.flatMap_cons, if_neg hc, List.singleton_append]
    exact congrArg _ (ih h.2)

theorem crlf_break {line : Line} (h : '\n' ∉ line) :
    crlf (line ++ LineEnding.lf.chars) = line ++ LineEnding.crlf.chars := by
  simp [h]
  rfl

theorem crlf_flatten (whole : List Line) : crlf whole.flatten = (whole.map crlf).flatten := by
  induction whole with
  | nil => rfl
  | cons line rest ih => simp [ih]

@[simp] theorem getLast?_crlf (text : Text) : (crlf text).getLast? = text.getLast? := by
  induction text using List.reverseRecOn with
  | nil => rfl
  | append_singleton front c ih =>
    rw [crlf_append, List.getLast?_append, List.getLast?_concat]
    by_cases hc : c = '\n'
    · rw [hc]
      rfl
    · have hone : crlf [c] = [c] := crlf_of_not_mem (by simpa using Ne.symm hc)
      rw [hone]
      rfl

@[simp] theorem hasCrlf_append_right (xs ys : Text) (h : hasCrlf ys = true) :
    hasCrlf (xs ++ ys) = true := by
  induction xs with
  | nil => exact h
  | cons c rest ih =>
    rw [List.cons_append]
    cases hrest : rest ++ ys with
    | nil =>
      rw [hrest] at ih
      contradiction
    | cons d more =>
      rw [hrest] at ih
      rw [hasCrlf, ih, Bool.or_true]

@[simp] theorem hasCrlf_append_left (xs ys : Text) (h : hasCrlf xs = true) :
    hasCrlf (xs ++ ys) = true := by
  fun_induction hasCrlf xs with
  | case1 => contradiction
  | case2 => contradiction
  | case3 c d rest ih =>
    rw [List.cons_append, List.cons_append, hasCrlf]
    rcases Bool.or_eq_true_iff.mp h with h | h
    · rw [h, Bool.true_or]
    · rw [← List.cons_append, ih h, Bool.or_true]

theorem hasCrlf_of_not_mem {text : Text} (h : '\r' ∉ text) : hasCrlf text = false := by
  fun_induction hasCrlf text with
  | case1 => rfl
  | case2 => rfl
  | case3 c d rest ih =>
    rw [List.mem_cons, not_or] at h
    have hc : c ≠ '\r' := Ne.symm h.1
    rw [ih h.2]
    simp [hc]

theorem hasCrlf_crlf {text : Text} (h : '\n' ∈ text) : hasCrlf (crlf text) = true := by
  obtain ⟨front, back, rfl⟩ := List.append_of_mem h
  rw [crlf_append]
  apply hasCrlf_append_right
  rfl

@[simp] theorem ofText_of_not_mem {text : Text} (h : '\r' ∉ text) :
    LineEnding.ofText text = .lf := by
  rw [LineEnding.ofText, hasCrlf_of_not_mem h]
  rfl

theorem ofText_crlf {text : Text} (h : '\n' ∈ text) : LineEnding.ofText (crlf text) = .crlf := by
  rw [LineEnding.ofText, hasCrlf_crlf h]
  rfl

theorem wholeLines_crlf (text : Text) :
    wholeLines (crlf text ++ LineEnding.crlf.chars) =
      (wholeLines (text ++ LineEnding.lf.chars)).map crlf := by
  have hclosed : crlf text ++ LineEnding.crlf.chars =
      ((wholeLines (text ++ LineEnding.lf.chars)).map crlf).flatten := by
    rw [← crlf_flatten, flatten_wholeLines, crlf_append]
    rfl
  rw [hclosed]
  apply wholeLines_flatten
  intro w hw
  obtain ⟨line, hline, rfl⟩ := List.mem_map.mp hw
  obtain ⟨body, rfl, hbody⟩ := isWhole_of_mem_wholeLines hline
  have hwhole := isWhole_ending hbody .crlf
  rw [← crlf_break hbody] at hwhole
  exact hwhole

theorem getLast?_ne_of_not_mem {line : Line} (h : '\r' ∉ line) : line.getLast? ≠ some '\r' :=
  fun hlast => h (List.mem_of_getLast? hlast)

/-- Without carriage returns of its own a text has the same lines in both forms. -/
@[simp] theorem lines_crlf {text : Text} (h : '\r' ∉ text) : lines (crlf text) = lines text := by
  have hend : text.getLast? ≠ some '\r' := getLast?_ne_of_not_mem h
  have hend' : (crlf text).getLast? ≠ some '\r' := by rwa [getLast?_crlf]
  rw [lines_eq_wholeLines .crlf hend', lines_eq_wholeLines .lf hend, wholeLines_crlf, List.map_map]
  apply List.map_congr_left
  intro w hw
  obtain ⟨body, rfl, hbody⟩ := isWhole_of_mem_wholeLines hw
  have hreturn : '\r' ∉ body := by
    intro hmem
    have hflat : '\r' ∈ (wholeLines (text ++ LineEnding.lf.chars)).flatten :=
      List.mem_flatten.mpr ⟨_, hw, List.mem_append_left _ hmem⟩
    rw [flatten_wholeLines, List.mem_append] at hflat
    rcases hflat with hflat | hflat
    · exact h hflat
    · revert hflat
      decide
  have hbreak : body ++ ['\n'] = body ++ LineEnding.lf.chars := rfl
  rw [Function.comp_apply, hbreak, crlf_break hbody, lineOf_ending (getLast?_ne_of_not_mem hreturn),
    lineOf_ending (getLast?_ne_of_not_mem hreturn)]

section
variable {text text' : Text} (h : lines text' = lines text)
include h

/-- A lint run looks at the lines of a text only. -/
theorem lint_of_lines (config : LintConfig) : lint config text' = lint config text := by
  have hscan : scan text' = scan text := by rw [scan, scan, h]
  have hcommas : commaIssues text' = commaIssues text := by rw [commaIssues, commaIssues, h]
  have hkind : ∀ kind : RuleKind, kind.diagnostics config text' = kind.diagnostics config text := by
    intro kind
    cases kind <;> simp only [RuleKind.diagnostics, RuleKind.faults, hscan, hcommas]
  rw [lint_eq, lint_eq]
  simp only [hkind]

theorem row_of_lines (m : Mending) : m.row text' = m.row text := by
  rw [Mending.row, lineAt, h, Mending.row, lineAt]

theorem rowsBelow_of_lines (ms : List Mending) (number : Nat) :
    rowsBelow text' ms number = rowsBelow text ms number :=
  List.map_congr_left fun m _ => row_of_lines h m

theorem position_of_lines (m : Mending) : (m.edit text').position = (m.edit text).position := by
  rw [Mending.edit, Mending.edit, lineAt, lineAt, h]
  split <;> rfl

/-- The offers for a text go to the same places whatever ends its lines. -/
theorem offers_of_lines (config : LintConfig) :
    (offers config text').map (fun a => (a.title, a.diagnostic, a.edits.map (·.position))) =
      (offers config text).map (fun a => (a.title, a.diagnostic, a.edits.map (·.position))) := by
  rw [offers, offers, lint_of_lines h, List.map_filterMap, List.map_filterMap]
  apply List.filterMap_congr
  intro d _
  cases hm : d.mending? with
  | none => simp [offer?, hm]
  | some m => simp [offer?, hm, position_of_lines h m]

end

/-- Mending a converted text gives the mended text converted. -/
theorem fixedText_crlf (config : LintConfig) {text : Text} (h : '\r' ∉ text) (hbreak : '\n' ∈ text) :
    fixedText config (crlf text) = crlf (fixedText config text) := by
  have hlines := lines_crlf h
  have hend : text.getLast? ≠ some '\r' := getLast?_ne_of_not_mem h
  have hmendings : mendings config (crlf text) = mendings config text := by
    rw [mendings, lint_of_lines hlines, mendings]
  have hwhole := wholeLines_applyEdits (fun _ hm => @placed_of_mem_mendings config text _ hm) hend
  have hwhole' := wholeLines_applyEdits
    (fun _ hm => @placed_of_mem_mendings config (crlf text) _ hm) (by rwa [getLast?_crlf])
  rw [ofText_of_not_mem h] at hwhole
  rw [ofText_crlf hbreak, hmendings, wholeLines_crlf] at hwhole'
  have hrows : ∀ n, (rowsBelow (crlf text) (mendings config text) n).map
      (· ++ LineEnding.crlf.chars) =
        ((rowsBelow text (mendings config text) n).map (· ++ LineEnding.lf.chars)).map crlf := by
    intro n
    rw [rowsBelow_of_lines hlines, List.map_map]
    apply List.map_congr_left
    intro row hrow
    obtain ⟨m, _, rfl⟩ := List.mem_map.mp hrow
    exact (crlf_break (newline_not_mem_row text m)).symm
  apply @eq_of_wholeLines_eq .crlf
  rw [wholeLines_crlf, fixedText, fixedText, hmendings, hwhole, hwhole', map_withRows]
  exact withRows_congr (fun n _ _ => hrows n)

/-- Linting and fixing commute with the conversion of line ends: the diagnostics are the same, and
a run of fixes with the same actions in the same places gives the same text converted. -/
theorem crlf_commutes (config : LintConfig) {text : Text} (h : '\r' ∉ text) :
    lint config (crlf text) = lint config text ∧
      ('\n' ∈ text → ∃ r r', fix config text = .ok r ∧ fix config (crlf text) = .ok r' ∧
        r'.fixed = crlf r.fixed ∧
        r'.applied.map (fun a => (a.title, a.diagnostic, a.edits.map (·.position))) =
          r.applied.map (fun a => (a.title, a.diagnostic, a.edits.map (·.position)))) := by
  refine ⟨lint_of_lines (lines_crlf h) config, fun hbreak => ?_⟩
  exact ⟨_, _, fix_eq config text, fix_eq config (crlf text), fixedText_crlf config h hbreak,
    offers_of_lines (lines_crlf h) config⟩

/-- Two openers, the second on the last line, where the row goes behind the line. -/
theorem crlf_commutes_last_line :
    '\r' ∉ " IF (a)\n\tFIX".toList ∧ '\n' ∈ " IF (a)\n\tFIX".toList ∧
      ∃ r r', fix {} " IF (a)\n\tFIX".toList = .ok r ∧ fix {} " IF (a)\r\n\tFIX".toList = .ok r' ∧
        r.fixed = " IF (a)\n ENDIF\n\tFIX\n\tENDFIX".toList ∧
        r'.fixed = " IF (a)\r\n ENDIF\r\n\tFIX\r\n\tENDFIX".toList := by
  have hreturn : '\r' ∉ " IF (a)\n\tFIX".toList := by decide
  have hbreak : '\n' ∈ " IF (a)\n\tFIX".toList := by decide
  have hcrlf : crlf " IF (a)\n\tFIX".toList = " IF (a)\r\n\tFIX".toList := by decide
  obtain ⟨r, r', hr, hr', hfixed, _⟩ := (crlf_commutes {} hreturn).2 hbreak
  have hmended : r.fixed = " IF (a)\n ENDIF\n\tFIX\n\tENDFIX".toList := by
    rw [fix_eq] at hr
    cases hr
    cbv
  refine ⟨hreturn, hbreak, r, r', hr, hcrlf ▸ hr', hmended, ?_⟩
  rw [hfixed, hmended]
  decide

end CalcLint
