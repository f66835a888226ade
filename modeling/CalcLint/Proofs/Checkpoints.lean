import CalcLint.Proofs.Marks
import Mathlib

/-!
# Resuming at a line end

What both passes carry over a line end is all that the lines below need: from there they may be
run again, with the same result. The keyword pass owes nothing to the lines below. The comma pass
looks at them, but a look from above comes to the line end in the state in which the pass itself is
there, so all it can bring back is the first character that the look from the line end finds.
-/
namespace CalcLint

def Token.down (count : Nat) (t : Token) : Token :=
  { t with line := t.line + count }

def CommaIssue.down (count : Nat) (issue : CommaIssue) : CommaIssue :=
  { issue with line := issue.line + count }

theorem scanLines_down (state : ScanState) (first count : Nat) (document : List Line) :
    scanLines state (first + count) document =
      ((scanLines state first document).1.map (Token.down count),
        (scanLines state first document).2) := by
  induction document generalizing state first with
  | nil => rfl
  | cons line below ih =>
    rw [scanLines, Nat.add_right_comm, ih, scanLines, List.map_append, List.map_map]
    rfl

theorem commaLines_down (state : CommaState) (first count : Nat) (document : List Line) :
    commaLines state (first + count) document =
      ((commaLines state first document).1.map (CommaIssue.down count),
        (commaLines state first document).2) := by
  induction document generalizing state first with
  | nil => rfl
  | cons line below ih =>
    rw [commaLines, Nat.add_right_comm, ih, commaLines, List.map_append, List.map_map]
    rfl

theorem line_of_mem_scanLines {state : ScanState} {first : Nat} {document : List Line} {t : Token}
    (h : t ∈ (scanLines state first document).1) :
    first ≤ t.line ∧ t.line < first + document.length := by
  obtain ⟨i, line, hline, w, _, rfl⟩ := mem_scanLines.mp h
  obtain ⟨hlt, _⟩ := List.getElem?_eq_some_iff.mp hline
  simp only [Word.onLine]
  omega

theorem le_line_of_mem_commaLines {state : CommaState} {first : Nat} {document : List Line}
    {issue : CommaIssue} (h : issue ∈ (commaLines state first document).1) :
    first ≤ issue.line := by
  induction document generalizing state first with
  | nil => contradiction
  | cons line below ih =>
    rw [commaLines, List.mem_append] at h
    rcases h with h | h
    · obtain ⟨spot, _, rfl⟩ := List.mem_map.mp h
      exact Nat.le_refl first
    · exact Nat.le_of_succ_le (ih h)

/-- The comma pass over the lines `above` when the lines `below` follow them. -/
def commaLinesAbove (below : List Line) (state : CommaState) (first : Nat) :
    List Line → List CommaIssue × CommaState
  | [] => ([], state)
  | line :: above =>
    let here := commaLine state line (above ++ below)
    let later := commaLinesAbove below here.2 (first + 1) above
    (here.1.map (CommaSpot.onLine first) ++ later.1, later.2)

/-- The comma pass over two parts of a document: the second starts where the first ends. -/
theorem commaLines_append (state : CommaState) (first : Nat) (above below : List Line) :
    commaLines state first (above ++ below) =
      ((commaLinesAbove below state first above).1 ++
          (commaLines (commaLinesAbove below state first above).2 (first + above.length) below).1,
        (commaLines (commaLinesAbove below state first above).2 (first + above.length) below).2) := by
  induction above generalizing state first with
  | nil => simp [commaLinesAbove]
  | cons line above ih =>
    have hnext : first + (line :: above).length = first + 1 + above.length := by
      rw [List.length_cons]
      omega
    rw [hnext, List.cons_append, commaLines, ih, commaLinesAbove, List.append_assoc]

theorem line_of_mem_commaLinesAbove {below above : List Line} {state : CommaState} {first : Nat}
    {issue : CommaIssue} (h : issue ∈ (commaLinesAbove below state first above).1) :
    issue.line < first + above.length := by
  induction above generalizing state first with
  | nil => contradiction
  | cons line above ih =>
    rw [commaLinesAbove, List.mem_append] at h
    rw [List.length_cons]
    rcases h with h | h
    · obtain ⟨spot, _, rfl⟩ := List.mem_map.mp h
      simp only [CommaSpot.onLine]
      omega
    · have hlt := ih h
      omega

@[simp] theorem scanStateAt_append (state : ScanState) (first : Nat) (above below : List Line) :
    scanStateAt state (above ++ below) above.length = (scanLines state first above).2 := by
  induction above generalizing state first with
  | nil => simp [scanStateAt, scanLines]
  | cons line above ih =>
    rw [List.cons_append, List.length_cons, scanStateAt, scanLines]
    exact ih _ (first + 1)

@[simp] theorem commaStateAt_append (state : CommaState) (first : Nat) (above below : List Line) :
    commaStateAt state (above ++ below) above.length =
      (commaLinesAbove below state first above).2 := by
  induction above generalizing state first with
  | nil => simp [commaStateAt, commaLinesAbove]
  | cons line above ih =>
    rw [List.cons_append, List.length_cons, commaStateAt, commaLinesAbove]
    exact ih _ (first + 1)

/-- What stands below a line changes the verdicts on its commas, but not the state behind it. -/
theorem commaCode_state (below below' : List Line) (state : CommaState) (column : Nat)
    (rest : Line) :
    (commaCode below state column rest).2 = (commaCode below' state column rest).2 := by
  induction state, column, rest using commaCode_induction with
  | nil state column => rw [commaCode_nil, commaCode_nil]
  | opened state column tail hnone => rw [commaCode_open hnone, commaCode_open hnone]
  | comment state column tail after hsome ih =>
    rw [commaCode_comment hsome, commaCode_comment hsome, ih]
  | string state column tail ih => rw [commaCode_string, commaCode_string, ih]
  | comma state column tail ih => rw [commaCode_comma, commaCode_comma, ih]
  | other state column c tail hopen hquote hcomma ih =>
    rw [commaCode_other hopen hquote hcomma, commaCode_other hopen hquote hcomma, ih]

theorem commaLine_state (state : CommaState) (line : Line) (below below' : List Line) :
    (commaLine state line below).2 = (commaLine state line below').2 := by
  unfold commaLine
  split
  · split
    · rfl
    · exact commaCode_state below below' state _ _
  · exact commaCode_state below below' state _ _

theorem commaLinesAbove_state (below below' : List Line) (state : CommaState) (first : Nat)
    (above : List Line) :
    (commaLinesAbove below state first above).2 = (commaLinesAbove below' state first above).2 := by
  induction above generalizing state first with
  | nil => rfl
  | cons line above ih =>
    rw [commaLinesAbove, commaLinesAbove, commaLine_state state line (above ++ below)
      (above ++ below'), ih]

/-- A look that finds nothing in the first lines goes on below them in the state in which the
keyword pass leaves them. -/
theorem nextSignificant?_append {state : ScanState} {above below below' : List Line}
    (h : nextSignificant? (scanLines state 0 above).2.inComment below =
      nextSignificant? (scanLines state 0 above).2.inComment below') :
    nextSignificant? state.inComment (above ++ below) =
      nextSignificant? state.inComment (above ++ below') := by
  induction above generalizing state with
  | nil => exact h
  | cons line above ih =>
    rw [List.cons_append, List.cons_append, nextSignificant?, nextSignificant?]
    cases hlook : lookAlongLine state.inComment line with
    | found c => rfl
    | nothing isOpen =>
      have hscan : scanLine state line = ([], ⟨isOpen⟩) := scanLine_of_lookAlong hlook
      rw [scanLines, hscan, scanLines_down _ 0 1] at h
      exact @ih ⟨isOpen⟩ h

/-- The commas of the first lines are judged alike above all lines in which the look from their end
finds the same. -/
theorem commaLinesAbove_congr {below below' above : List Line} {state : CommaState} {first : Nat}
    (h : nextSignificant? (commaLinesAbove below state first above).2.inComment below =
      nextSignificant? (commaLinesAbove below state first above).2.inComment below') :
    commaLinesAbove below state first above = commaLinesAbove below' state first above := by
  induction above generalizing state first with
  | nil => rfl
  | cons line above ih =>
    rw [commaLinesAbove] at h
    have hline : commaLine state line (above ++ below) = commaLine state line (above ++ below') := by
      apply commaLine_congr
      intro hclosed
      -- Both passes hold the same comments open, so the look reaches the line end as they do.
      have hstate := scanStateAt_inComment (commaLine state line (above ++ below)).2
        (above ++ below) above.length
      rw [scanStateAt_append _ 0, commaStateAt_append _ (first + 1), hclosed] at hstate
      exact @nextSignificant?_append ⟨false⟩ above below below' (by rw [hstate]; exact h)
    rw [commaLinesAbove, commaLinesAbove, ih h, hline]

/-- Cutting a list of items at a line. -/
theorem filter_line_append {α : Type} (line : α → Nat) {n : Nat} {xs ys : List α}
    (hx : ∀ x ∈ xs, line x < n) (hy : ∀ y ∈ ys, n ≤ line y) :
    (xs ++ ys).filter (fun x => line x < n) = xs ∧
      (xs ++ ys).filter (fun x => n ≤ line x) = ys := by
  constructor
  · rw [List.filter_append, List.filter_eq_self.mpr, List.filter_eq_nil_iff.mpr, List.append_nil]
    · intro y hmem
      have := hy y hmem
      simpa using this
    · intro x hmem
      simpa using hx x hmem
  · rw [List.filter_append, List.filter_eq_nil_iff.mpr, List.filter_eq_self.mpr, List.nil_append]
    · intro y hmem
      simpa using hy y hmem
    · intro x hmem
      have := hx x hmem
      simpa using this

theorem scanLines_filter (state : ScanState) (above below : List Line) :
    (scanLines state 0 (above ++ below)).1.filter (·.line < above.length) =
        (scanLines state 0 above).1 ∧
      (scanLines state 0 (above ++ below)).1.filter (above.length ≤ ·.line) =
        (scanLines (scanLines state 0 above).2 0 below).1.map (Token.down above.length) := by
  have hdown := scanLines_down (scanLines state 0 above).2 0 above.length below
  have hcut := @filter_line_append _ Token.line above.length (scanLines state 0 above).1
    (scanLines (scanLines state 0 above).2 (0 + above.length) below).1
    (fun t ht => by have := line_of_mem_scanLines ht; omega)
    (fun t ht => by have := line_of_mem_scanLines ht; omega)
  rw [scanLines_append, hcut.1, hcut.2, hdown]
  exact ⟨rfl, rfl⟩

theorem commaLines_filter (state : CommaState) (above below : List Line) :
    (commaLines state 0 (above ++ below)).1.filter (·.line < above.length) =
        (commaLinesAbove below state 0 above).1 ∧
      (commaLines state 0 (above ++ below)).1.filter (above.length ≤ ·.line) =
        (commaLines (commaLinesAbove below state 0 above).2 0 below).1.map
          (CommaIssue.down above.length) := by
  have hdown := commaLines_down (commaLinesAbove below state 0 above).2 0 above.length below
  have hcut := @filter_line_append _ CommaIssue.line above.length
    (commaLinesAbove below state 0 above).1
    (commaLines (commaLinesAbove below state 0 above).2 (0 + above.length) below).1
    (fun i hi => by have := line_of_mem_commaLinesAbove hi; omega)
    (fun i hi => by have := le_line_of_mem_commaLines hi; omega)
  rw [commaLines_append, hcut.1, hcut.2, hdown]
  exact ⟨rfl, rfl⟩

/-- The states of both passes at a line end are enough to go on from there, and depend on nothing
below it: the lines `below`, analysed alone from these states, give what the whole document gives
for them. What is found above the line end is the same whatever follows, but for the commas at the
end of a line; these are the same whenever the look from the line end finds the same character. -/
theorem checkpoints_suffice (scanned : ScanState) (judged : CommaState) (above below : List Line) :
    ((scanLines scanned 0 (above ++ below)).1.filter (above.length ≤ ·.line) =
        (scanLines (scanStateAt scanned (above ++ below) above.length) 0 below).1.map
          (Token.down above.length) ∧
      (scanLines scanned 0 (above ++ below)).2 =
        (scanLines (scanStateAt scanned (above ++ below) above.length) 0 below).2 ∧
      (commaLines judged 0 (above ++ below)).1.filter (above.length ≤ ·.line) =
        (commaLines (commaStateAt judged (above ++ below) above.length) 0 below).1.map
          (CommaIssue.down above.length) ∧
      (commaLines judged 0 (above ++ below)).2 =
        (commaLines (commaStateAt judged (above ++ below) above.length) 0 below).2) ∧
    ∀ below',
      ((scanLines scanned 0 (above ++ below)).1.filter (·.line < above.length) =
          (scanLines scanned 0 (above ++ below')).1.filter (·.line < above.length) ∧
        scanStateAt scanned (above ++ below) above.length =
          scanStateAt scanned (above ++ below') above.length ∧
        commaStateAt judged (above ++ below) above.length =
          commaStateAt judged (above ++ below') above.length) ∧
      (nextSignificant? (commaStateAt judged (above ++ below) above.length).inComment below =
          nextSignificant? (commaStateAt judged (above ++ below) above.length).inComment below' →
        (commaLines judged 0 (above ++ below)).1.filter (·.line < above.length) =
          (commaLines judged 0 (above ++ below')).1.filter (·.line < above.length)) := by
  simp only [scanStateAt_append scanned 0, commaStateAt_append judged 0]
  refine ⟨⟨(scanLines_filter scanned above below).2, ?_, (commaLines_filter judged above below).2,
    ?_⟩, fun below' => ⟨⟨?_, trivial, ?_⟩, ?_⟩⟩
  · rw [scanLines_append, scanLines_down _ 0 above.length]
  · rw [commaLines_append, commaLines_down _ 0 above.length]
  · rw [(scanLines_filter scanned above below).1, (scanLines_filter scanned above below').1]
  · exact commaLinesAbove_state below below' judged 0 above
  · intro h
    rw [(commaLines_filter judged above below).1, (commaLines_filter judged above below').1,
      commaLinesAbove_congr h]

/-- A comma at the end of a line that looks into a comment closed below the line end: both documents
go on with the same bracket, in different lines. -/
theorem checkpoints_suffice_in_comment :
    (commaStateAt {} (["FIX(a,".toList, "/* x".toList] ++ ["*/ )".toList]) 2).inComment = true ∧
      nextSignificant? true ["*/ )".toList] = nextSignificant? true ["y */".toList, ")".toList] ∧
      (commaLines {} 0 (["FIX(a,".toList, "/* x".toList] ++ ["*/ )".toList])).1.filter
          (·.line < 2) = [⟨.trailing, 0, 5, 1⟩] ∧
      (commaLines {} 0 (["FIX(a,".toList, "/* x".toList] ++ ["*/ )".toList])).1.filter
          (·.line < 2) =
        (commaLines {} 0 (["FIX(a,".toList, "/* x".toList] ++ ["y */".toList, ")".toList])).1.filter
          (·.line < 2) := by
  refine ⟨by cbv, by cbv, by cbv, ?_⟩
  have hlook : nextSignificant?
      (commaStateAt {} (["FIX(a,".toList, "/* x".toList] ++ ["*/ )".toList]) 2).inComment
        ["*/ )".toList] =
      nextSignificant?
        (commaStateAt {} (["FIX(a,".toList, "/* x".toList] ++ ["*/ )".toList]) 2).inComment
          ["y */".toList, ")".toList] := by cbv
  exact ((checkpoints_suffice {} {} ["FIX(a,".toList, "/* x".toList] ["*/ )".toList]).2
    ["y */".toList, ")".toList]).2 hlook

end CalcLint
