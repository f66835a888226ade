import CalcLint.Proofs.CommaBreaks

/-!
# Positions and offsets

The passes count in lines and columns, edits are applied at offsets of the whole text, and the text
is cut twice: into lines without their line breaks, and into stretches that start behind line feeds.
Both cuts agree. A line stands at its start, positions in reading order have increasing offsets, and
at the offset of what a pass has found stands what it has found.
-/
namespace CalcLint

namespace Position

/-- The offset of a position in a text. -/
def offset (text : Text) (p : Position) : Nat :=
  offsetOf (lineStarts text).toArray text.length p

/-- The position is on the line, or directly behind its last character. -/
structure OnLine (text : Text) (p : Position) (line : Line) : Prop where
  line_eq : (lines text)[p.line]? = some line
  character_le : p.character ≤ line.length

/-- Reading order, without equality. -/
def Before (p q : Position) : Prop :=
  p.line < q.line ∨ p.line = q.line ∧ p.character < q.character

end Position

@[simp] theorem length_lineStarts (text : Text) :
    (lineStarts text).length = (lines text).length := by
  rw [lineStarts_eq, List.length_map, List.length_range, lines, List.length_map]

section
variable {text : Text} {line : Line} {number : Nat}

/-- A line is a piece between line feeds, perhaps less a carriage return. -/
theorem exists_piece (h : (lines text)[number]? = some line) :
    ∃ ending, (text.splitOn '\n')[number]? = some (line ++ ending) := by
  rw [lines_getElem?, Option.map_eq_some_iff] at h
  obtain ⟨piece, hpiece, rfl⟩ := h
  obtain ⟨ending, hending, _⟩ := chopReturn_append piece
  exact ⟨ending, hending ▸ hpiece⟩

theorem lineStarts_getElem? (h : (lines text)[number]? = some line) :
    (lineStarts text)[number]? = some (pieceStart (text.splitOn '\n') number) := by
  obtain ⟨_, hpiece⟩ := exists_piece h
  have hlt := (List.getElem?_eq_some_iff.mp hpiece).1
  simp [lineStarts_eq, hlt]

/-- The text from the start of a line on begins with the line. -/
theorem drop_pieceStart (h : (lines text)[number]? = some line) :
    ∃ behind, text.drop (pieceStart (text.splitOn '\n') number) = line ++ behind := by
  obtain ⟨ending, hpiece⟩ := exists_piece h
  obtain ⟨above, below, hpieces, rfl⟩ := exists_around hpiece
  have htext := intercalate_around above below (line ++ ending)
  rw [← hpieces, List.intercalate_splitOn] at htext
  refine ⟨ending ++ below.flatMap ('\n' :: ·), ?_⟩
  rw [hpieces, pieceStart_around, htext, List.drop_left, List.append_assoc]

end

namespace Position.OnLine
variable {text : Text} {p q : Position} {line line' : Line}

theorem offset_eq (h : p.OnLine text line) :
    p.offset text = pieceStart (text.splitOn '\n') p.line + p.character := by
  obtain ⟨ending, hpiece⟩ := exists_piece h.line_eq
  have hle : p.character ≤ (line ++ ending).length := by
    rw [List.length_append]
    exact Nat.le_add_right_of_le h.character_le
  exact offsetOf_eq hpiece hle

/-- The text from a position on begins with the rest of its line. -/
theorem drop_offset (h : p.OnLine text line) :
    ∃ behind, text.drop (p.offset text) = line.drop p.character ++ behind := by
  obtain ⟨behind, hbehind⟩ := drop_pieceStart h.line_eq
  refine ⟨behind, ?_⟩
  rw [h.offset_eq, ← List.drop_drop, hbehind, List.drop_append_of_le_length h.character_le]

/-- The line feed behind a line is counted between it and the next one, so offsets increase over
line ends too. -/
theorem offset_lt (hp : p.OnLine text line) (hq : q.OnLine text line') (h : p.Before q) :
    p.offset text < q.offset text := by
  rw [hp.offset_eq, hq.offset_eq]
  rcases h with hlt | ⟨hsame, hlt⟩
  · obtain ⟨ending, hpiece⟩ := exists_piece hp.line_eq
    have hnext := pieceStart_succ hpiece
    have hmono := pieceStart_mono (text.splitOn '\n') (show p.line + 1 ≤ q.line from hlt)
    have hle := hp.character_le
    rw [List.length_append] at hnext
    omega
  · rw [hsame]
    exact Nat.add_lt_add_left hlt _

end Position.OnLine

theorem onLine_of_mem_scan {text : Text} {t : Token} (h : t ∈ scan text) :
    ∃ line, t.range.start.OnLine text line ∧
      ∃ rest, line.drop t.column = t.lexeme ++ rest := by
  obtain ⟨line, hline, hword⟩ := mem_scan_iff.mp h
  have hwidth : t.kind.width ≤ line.length - t.column := by
    rw [← List.length_drop, ← lexeme_length_of_mem_scan h, hword.lexeme]
    exact List.length_take_le' _ _
  have hpos := t.kind.width_pos
  have hle : t.column ≤ line.length := by omega
  refine ⟨line, ⟨hline, hle⟩, (line.drop t.column).drop t.kind.width, ?_⟩
  rw [hword.lexeme, List.take_append_drop]

theorem onLine_of_mem_commaIssues {text : Text} {issue : CommaIssue}
    (h : issue ∈ commaIssues text) :
    ∃ line, issue.range.start.OnLine text line ∧
      ∃ rest, line.drop issue.column = ',' :: rest := by
  obtain ⟨l, c, row, ⟨hrow, hcomma⟩, spot, hspot, rfl⟩ := mem_commaIssues.mp h
  have hline : (lines text)[l]? = some (row.map Prod.fst) := by
    rw [← Mode.map_fst_markedLines .code (lines text), List.getElem?_map]
    exact congrArg _ hrow
  have hcolumn : (spot.onLine l).column = c := column_of_judgeComma hspot
  have hchar : (row.map Prod.fst)[c]? = some ',' := by
    rw [List.getElem?_map, hcomma, Option.map_some]
  obtain ⟨left, right, hparts, hleft⟩ := exists_around hchar
  have hle : c ≤ (row.map Prod.fst).length := Nat.le_of_lt (List.getElem?_eq_some_iff.mp hchar).1
  refine ⟨row.map Prod.fst, ⟨hline, hcolumn.trans_le hle⟩, right, ?_⟩
  rw [hcolumn, hparts, ← hleft, List.drop_left]

/-- Columns and offsets address the same characters. There are as many line starts as lines, each
line stands at its start, positions on lines have strictly increasing offsets, and at the offset of
a keyword stands its lexeme, at that of a misplaced comma a comma. -/
theorem offsets_address_found_text (text : Text) :
    (lineStarts text).length = (lines text).length ∧
    (∀ (l : Nat) (line : Line), (lines text)[l]? = some line →
      ∃ start, (lineStarts text)[l]? = some start ∧ (text.drop start).take line.length = line) ∧
    (∀ (p q : Position) (line line' : Line), p.OnLine text line → q.OnLine text line' →
      p.Before q → p.offset text < q.offset text) ∧
    (∀ t ∈ scan text,
      (text.drop (t.range.start.offset text)).take t.lexeme.length = t.lexeme) ∧
    ∀ issue ∈ commaIssues text, text[issue.range.start.offset text]? = some ',' := by
  refine ⟨length_lineStarts text, ?_, ?_, ?_, ?_⟩
  · intro l line hline
    obtain ⟨behind, hbehind⟩ := drop_pieceStart hline
    refine ⟨_, lineStarts_getElem? hline, ?_⟩
    rw [hbehind, List.take_left]
  · intro p q line line' hp hq hbefore
    exact hp.offset_lt hq hbefore
  · intro t ht
    obtain ⟨line, honLine, rest, hlexeme⟩ := onLine_of_mem_scan ht
    obtain ⟨behind, hbehind⟩ := honLine.drop_offset
    rw [hbehind]
    show (line.drop t.column ++ behind).take t.lexeme.length = t.lexeme
    rw [hlexeme, List.append_assoc, List.take_left]
  · intro issue hissue
    obtain ⟨line, honLine, rest, hcomma⟩ := onLine_of_mem_commaIssues hissue
    obtain ⟨behind, hbehind⟩ := honLine.drop_offset
    rw [← List.head?_drop, hbehind]
    show (line.drop issue.column ++ behind).head? = some ','
    rw [hcomma, List.cons_append, List.head?_cons]

/-- A line that keeps one of two carriage returns, and a keyword and a comma on the line below. -/
theorem offsets_address_text_behind_returns :
    (⟨0, 2⟩ : Position).OnLine "x\r\r\nFix (a,)".toList "x\r".toList ∧
    (⟨1, 0⟩ : Position).OnLine "x\r\r\nFix (a,)".toList "Fix (a,)".toList ∧
    (⟨0, 2⟩ : Position).offset "x\r\r\nFix (a,)".toList <
      (⟨1, 0⟩ : Position).offset "x\r\r\nFix (a,)".toList ∧
    scan "x\r\r\nFix (a,)".toList = [⟨.fix, 1, 0, "Fix".toList⟩] ∧
    ("x\r\r\nFix (a,)".toList.drop
      ((⟨1, 0⟩ : Position).offset "x\r\r\nFix (a,)".toList)).take 3 = "Fix".toList ∧
    commaIssues "x\r\r\nFix (a,)".toList = [⟨.trailing, 1, 6, 1⟩] ∧
    "x\r\r\nFix (a,)".toList[(⟨1, 6⟩ : Position).offset "x\r\r\nFix (a,)".toList]? =
      some ',' := by
  obtain ⟨_, _, hoffsets, hkeywords, hcommas⟩ :=
    offsets_address_found_text "x\r\r\nFix (a,)".toList
  have hfirst : (⟨0, 2⟩ : Position).OnLine "x\r\r\nFix (a,)".toList "x\r".toList :=
    ⟨by decide, by decide⟩
  have hsecond : (⟨1, 0⟩ : Position).OnLine "x\r\r\nFix (a,)".toList "Fix (a,)".toList :=
    ⟨by decide, by decide⟩
  have hscan : scan "x\r\r\nFix (a,)".toList = [⟨.fix, 1, 0, "Fix".toList⟩] := by cbv
  have hissues : commaIssues "x\r\r\nFix (a,)".toList = [⟨.trailing, 1, 6, 1⟩] := by cbv
  exact ⟨hfirst, hsecond, hoffsets _ _ _ _ hfirst hsecond (Or.inl (by decide)), hscan,
    hkeywords ⟨.fix, 1, 0, "Fix".toList⟩ (hscan ▸ List.mem_cons_self), hissues,
    hcommas ⟨.trailing, 1, 6, 1⟩ (hissues ▸ List.mem_cons_self)⟩

end CalcLint
