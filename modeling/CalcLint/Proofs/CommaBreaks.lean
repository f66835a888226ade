import CalcLint.Proofs.Checkpoints
import CalcLint.Proofs.MisplacedCommas
import CalcLint.Proofs.WholeLines

/-!
# A line break behind an enclosed comma

A comma is judged by two different looks: along its own line, where only blanks are skipped, and
over the lines below, where comments are skipped too and a closer counts only inside an enclosure.
Where neither difference can show, a line break directly behind the comma hands it from the one look
to the other without changing the verdict. Nor does it change a verdict elsewhere: commas further
left see something on their line, every later character is taken for the same as before, and a look
from above does not get past the comma.
-/
namespace CalcLint

namespace Mode

theorem mark_congr (m : Mode) (c : Char) {rest rest' : Line} (h : rest.head? = rest'.head?) :
    m.mark (c :: rest) = m.mark (c :: rest') := by
  have hopen : opensComment (c :: rest) = opensComment (c :: rest') := by
    cases rest with
    | nil => cases rest' <;> simp_all [opensComment]
    | cons d rest => cases rest' <;> simp_all [opensComment]
  cases m <;> simp [mark, hopen]

/-- A mark depends on the next character at most, so the marks up to a comma do not depend on what
follows it. -/
theorem exists_marked_comma (m : Mode) (front : Line) :
    ∃ row : List (Char × Mark), row.length = front.length ∧ ∀ after,
      m.marked (front ++ ',' :: after) =
        row ++ (',', (m.after front).mark [',']) :: (m.after (front ++ [','])).marked after := by
  induction front generalizing m with
  | nil =>
    refine ⟨[], rfl, fun after => ?_⟩
    have hmark : m.mark (',' :: after) = m.mark [','] := by
      cases m <;> simp [mark]
    rw [List.nil_append, marked, hmark]
    rfl
  | cons c front ih =>
    obtain ⟨row, hlength, hrow⟩ := ih (m.next c)
    refine ⟨(c, m.mark (c :: (front ++ [',']))) :: row, by simp [hlength], fun after => ?_⟩
    have hhead : (front ++ ',' :: after).head? = (front ++ [',']).head? := by
      cases front <;> rfl
    rw [List.cons_append, marked, hrow after, m.mark_congr c hhead]
    rfl

theorem after_comma (m : Mode) (front rest : Line) :
    m.after (front ++ ',' :: rest) = (m.after (front ++ [','])).after rest := by
  rw [← after_append, List.append_assoc, List.singleton_append]

/-- A comma of code parts the marks of its line, and behind it the machine is in code. -/
theorem marked_of_code_comma {m : Mode} {front after : Line}
    (h : (m.marked (front ++ ',' :: after))[front.length]? = some (',', .code)) :
    ∃ row, (m.marked (front ++ ',' :: after)).take front.length = row ∧
      m.marked (front ++ [',']) = row ++ [(',', .code)] ∧
      m.marked (front ++ ',' :: after) = row ++ (',', .code) :: code.marked after ∧
      m.after (front ++ [',']) = code := by
  obtain ⟨row, hlength, hrow⟩ := m.exists_marked_comma front
  have hmark : (m.after front).mark [','] = .code := by
    rw [hrow, ← hlength, List.getElem?_append_right (Nat.le_refl _), Nat.sub_self] at h
    simpa using h
  have hmode : m.after (front ++ [',']) = code := by
    rw [after_append]
    exact next_comma hmark
  rw [hmark, hmode] at hrow
  refine ⟨row, ?_, hrow [], hrow after, hmode⟩
  rw [hrow after, ← hlength, List.take_left]

end Mode

/-- A comma further left sees at most the next comma. -/
theorem judgeComma_upto_comma (enclosed : Bool) (below below' : List Line) (column : Nat)
    (front after : Line) :
    judgeComma enclosed below column (front ++ ',' :: after) =
      judgeComma enclosed below' column (front ++ [',']) := by
  have hcomma : isBlank ',' = false := isBlank_comma
  unfold judgeComma
  cases hdrop : front.dropWhile isBlank with
  | nil => simp [List.dropWhile_append, List.takeWhile_append, hdrop, hcomma]
  | cons c rest =>
    have hlen := congrArg List.length (List.takeWhile_append_dropWhile (p := isBlank) (l := front))
    rw [hdrop, List.length_append, List.length_cons] at hlen
    have hne : (front.takeWhile isBlank).length ≠ front.length := by omega
    simp [List.dropWhile_append, List.takeWhile_append, hdrop, hne]

/-- The look over lines finds what the look along the line finds, unless that is a comment. -/
theorem nextSignificant?_line {after : Line} (h : opensComment (after.dropWhile isBlank) = false)
    (below : List Line) :
    nextSignificant? false (after :: below) =
      (after.dropWhile isBlank).head?.or (nextSignificant? false below) := by
  have hblanks : ∀ c ∈ after.takeWhile isBlank, isBlank c = true :=
    fun c hc => List.mem_takeWhile_imp hc
  have hlook : lookAlongLine false after = lookAlong (after.dropWhile isBlank) := by
    have hskip := lookAlong_blanks hblanks (after.dropWhile isBlank)
    rw [List.takeWhile_append_dropWhile] at hskip
    exact hskip
  rw [nextSignificant?, hlook]
  cases hdrop : after.dropWhile isBlank with
  | nil =>
    rw [lookAlong_nil]
    rfl
  | cons c rest =>
    have hvisible : isBlank c = false := by
      have hne : after.dropWhile isBlank ≠ [] := by simp [hdrop]
      have hhead := List.head_dropWhile_not isBlank hne
      simpa [hdrop] using hhead
    rw [hdrop] at h
    rw [lookAlong_found h hvisible]
    rfl

/-- Inside an enclosure both looks come to the same verdict. -/
theorem judgeComma_break {after : Line} (h : opensComment (after.dropWhile isBlank) = false)
    (below : List Line) (column column' : Nat) :
    (judgeComma true (after :: below) column' []).map (·.fault) =
      (judgeComma true below column after).map (·.fault) := by
  have hnext := nextSignificant?_line h below
  unfold judgeComma
  rw [hnext, List.dropWhile_nil]
  cases after.dropWhile isBlank with
  | nil =>
    dsimp only [List.head?_nil, Option.none_or]
    cases nextSignificant? false below with
    | none => rfl
    | some c => dsimp only; split_ifs <;> rfl
  | cons c rest =>
    dsimp only [List.head?_cons, Option.some_or]
    rw [Bool.true_and]
    split_ifs <;> rfl

theorem judgeComma_fault (enclosed : Bool) (below : List Line) (column column' : Nat)
    (after : Line) :
    (judgeComma enclosed below column after).map (·.fault) =
      (judgeComma enclosed below column' after).map (·.fault) := by
  unfold judgeComma
  split
  · split_ifs <;> rfl
  · split
    · split_ifs <;> rfl
    · rfl

/-- What is wrong with commas does not depend on the column in which they start. -/
theorem judgeRow_faults (below : List Line) (code : List Char) (column column' : Nat)
    (row : List (Char × Mark)) :
    (judgeRow below code column row).map (·.fault) =
      (judgeRow below code column' row).map (·.fault) := by
  induction row generalizing code column column' with
  | nil => rfl
  | cons x rest ih =>
    rw [judgeRow, judgeRow, List.map_append, List.map_append, ih _ (column + 1) (column' + 1)]
    congr 1
    split
    · rw [← Option.toList_map, ← Option.toList_map, judgeComma_fault _ _ column column']
    · rfl

theorem judgeRow_comma (below : List Line) (code : List Char) (column : Nat)
    (row : List (Char × Mark)) :
    judgeRow below code column ((',', .code) :: row) =
      (judgeComma (decide (0 < enclosure code)) below column (row.map Prod.fst)).toList ++
        judgeRow below (code ++ [',']) (column + 1) row := by
  rw [judgeRow, if_pos rfl, codeChars_code]

/-- The commas up to an enclosed one and those behind it are judged alike when a line break stands
between them. -/
theorem judgeRow_break {row behind : List (Char × Mark)} {code : List Char}
    (hdepth : 0 < enclosure (code ++ codeChars row))
    (hcomment : opensComment ((behind.map Prod.fst).dropWhile isBlank) = false) (below : List Line)
    (column column' : Nat) :
    (judgeRow (behind.map Prod.fst :: below) code column (row ++ [(',', .code)])).map (·.fault) ++
        (judgeRow below (code ++ codeChars (row ++ [(',', .code)])) column' behind).map (·.fault) =
      (judgeRow below code column (row ++ (',', .code) :: behind)).map (·.fault) := by
  induction row generalizing code column with
  | nil =>
    have henclosed : decide (0 < enclosure code) = true := by
      simpa [codeChars] using hdepth
    have hnone : judgeRow (behind.map Prod.fst :: below) (code ++ [',']) (column + 1) [] = [] := rfl
    rw [List.nil_append, List.nil_append, codeChars_code, judgeRow_comma, judgeRow_comma, henclosed,
      hnone, List.append_nil, List.map_append, ← Option.toList_map, ← Option.toList_map,
      List.map_nil, judgeComma_break hcomment below column column,
      judgeRow_faults below _ column' (column + 1)]
  | cons x row ih =>
    have hcode : ∀ row, code ++ codeChars (x :: row) = code ++ codeChars [x] ++ codeChars row := by
      intro row
      rw [List.append_assoc, ← codeChars_append, List.singleton_append]
    rw [hcode] at hdepth
    rw [List.cons_append, List.cons_append, hcode, judgeRow, judgeRow, List.map_append,
      List.map_append, List.append_assoc, ih hdepth (column + 1), List.map_append, List.map_append,
      List.map_cons, List.map_cons, List.map_nil,
      judgeComma_upto_comma _ below (behind.map Prod.fst :: below)]

theorem Tracks.eq {s s' : CommaState} {code : List Char} (h : Tracks s code) (h' : Tracks s' code)
    (hmode : ScanState.mode ⟨s.inComment⟩ = ScanState.mode ⟨s'.inComment⟩) : s = s' := by
  have hcomment : s.inComment = s'.inComment := by
    unfold ScanState.mode at hmode
    cases hs : s.inComment <;> cases hs' : s'.inComment <;> simp_all
  have hparens := h.parens.trans h'.parens.symm
  have hbrackets := h.brackets.trans h'.brackets.symm
  cases s
  cases s'
  simp_all

section
variable {state : CommaState} {code : List Char} {front after : Line}

/-- The comma pass over a line is the comma pass over its two parts, but for the places of what it
reports. -/
theorem commaLine_break (h : Tracks state code)
    (hcomma : ((ScanState.mode ⟨state.inComment⟩).marked (front ++ ',' :: after))[front.length]? =
      some (',', .code))
    (hdepth : 0 < enclosure (code ++ codeChars
      (((ScanState.mode ⟨state.inComment⟩).marked (front ++ ',' :: after)).take front.length)))
    (hcomment : opensComment (after.dropWhile isBlank) = false) (below : List Line) :
    (commaLine (commaLine state (front ++ [',']) (after :: below)).2 after below).2 =
        (commaLine state (front ++ ',' :: after) below).2 ∧
      (commaLine state (front ++ [',']) (after :: below)).1.map (·.fault) ++
          (commaLine (commaLine state (front ++ [',']) (after :: below)).2 after below).1.map
            (·.fault) =
        (commaLine state (front ++ ',' :: after) below).1.map (·.fault) := by
  obtain ⟨row, htake, hpart, hwhole, hmode⟩ := Mode.marked_of_code_comma hcomma
  have hnext : ScanState.mode ⟨(commaLine state (front ++ [',']) (after :: below)).2.inComment⟩ =
      Mode.code := by
    rw [mode_commaLine, hmode]
    rfl
  have hfirst := commaLine_judged h (front ++ [',']) (after :: below)
  have hsecond := commaLine_judged hfirst.tracks after below
  have hjoined := commaLine_judged h (front ++ ',' :: after) below
  rw [htake] at hdepth
  rw [hpart] at hfirst
  rw [hpart, hnext] at hsecond
  rw [hwhole] at hjoined
  constructor
  · have htracks := hsecond.tracks
    rw [List.append_assoc, ← codeChars_append, List.append_assoc, List.singleton_append] at htracks
    apply htracks.eq hjoined.tracks
    rw [mode_commaLine _ after, hnext, mode_commaLine, Mode.after_comma, hmode]
  · have hbreak := @judgeRow_break row (Mode.code.marked after) code hdepth
      (by rwa [Mode.map_fst_marked]) below 0 0
    rw [Mode.map_fst_marked] at hbreak
    rw [hfirst.spots, hsecond.spots, hjoined.spots, hbreak]

theorem map_fault_onLine (number : Nat) (spots : List CommaSpot) :
    (spots.map (CommaSpot.onLine number)).map (·.fault) = spots.map (·.fault) := by
  rw [List.map_map]
  rfl

theorem commaLines_break (h : Tracks state code)
    (hcomma : ((ScanState.mode ⟨state.inComment⟩).marked (front ++ ',' :: after))[front.length]? =
      some (',', .code))
    (hdepth : 0 < enclosure (code ++ codeChars
      (((ScanState.mode ⟨state.inComment⟩).marked (front ++ ',' :: after)).take front.length)))
    (hcomment : opensComment (after.dropWhile isBlank) = false) (first : Nat) (below : List Line) :
    (commaLines state first ((front ++ [',']) :: after :: below)).1.map (·.fault) =
      (commaLines state first ((front ++ ',' :: after) :: below)).1.map (·.fault) := by
  obtain ⟨hstate, hfaults⟩ := commaLine_break h hcomma hdepth hcomment below
  have hdown : ∀ issues : List CommaIssue,
      (issues.map (CommaIssue.down 1)).map (·.fault) = issues.map (·.fault) := by
    intro issues
    rw [List.map_map]
    rfl
  rw [commaLines, commaLines, commaLines, hstate, commaLines_down _ (first + 1) 1]
  simp only [List.map_append, map_fault_onLine, hdown]
  rw [← List.append_assoc, hfaults]

/-- A look from above meets the same characters, whether the line is broken or not. -/
theorem nextSignificant?_break {state : ScanState}
    (hcomma : (state.mode.marked (front ++ ',' :: after))[front.length]? = some (',', .code))
    (below : List Line) :
    nextSignificant? state.inComment ((front ++ ',' :: after) :: below) =
      nextSignificant? state.inComment ((front ++ [',']) :: after :: below) := by
  obtain ⟨row, -, hpart, hwhole, hmode⟩ := Mode.marked_of_code_comma hcomma
  rw [nextSignificant?_eq, nextSignificant?_eq, Mode.markedLines, Mode.markedLines,
    Mode.markedLines, hpart, hwhole, Mode.after_comma, hmode]
  simp [Mode.atBreak]

end

theorem markedLines_append (below : List Line) (state : CommaState) (first : Nat)
    (above rest : List Line) :
    (ScanState.mode ⟨state.inComment⟩).markedLines (above ++ rest) =
      (ScanState.mode ⟨state.inComment⟩).markedLines above ++
        (ScanState.mode ⟨(commaLinesAbove below state first above).2.inComment⟩).markedLines
          rest := by
  induction above generalizing state first with
  | nil => rfl
  | cons line above ih =>
    have hrest := ih (commaLine state line (above ++ below)).2 (first + 1)
    rw [mode_commaLine] at hrest
    rw [List.cons_append, Mode.markedLines, hrest, Mode.markedLines, commaLinesAbove]
    rfl

/-- Behind the lines above the comma pass has the depths behind their code. -/
theorem tracks_commaLinesAbove {state : CommaState} {code : List Char} (h : Tracks state code)
    (below : List Line) (first : Nat) (above : List Line) :
    Tracks (commaLinesAbove below state first above).2
      (code ++ codeChars ((ScanState.mode ⟨state.inComment⟩).markedLines above).flatten) := by
  induction above generalizing state code first with
  | nil => simpa [codeChars, commaLinesAbove, Mode.markedLines] using h
  | cons line above ih =>
    have hrest := ih (commaLine_judged h line (above ++ below)).tracks (first + 1)
    rw [mode_commaLine, List.append_assoc, ← codeChars_append] at hrest
    rw [commaLinesAbove, Mode.markedLines, List.flatten_cons]
    exact hrest

/-- The faults of a document stay the same when one of its lines is broken behind an enclosed
comma. -/
theorem commaLines_break_below {state : CommaState} {code : List Char} (h : Tracks state code)
    {above below : List Line} {front after : Line} {row : List (Char × Mark)}
    (hrow : ((ScanState.mode ⟨state.inComment⟩).markedLines
      (above ++ (front ++ ',' :: after) :: below))[above.length]? = some row)
    (hcomma : row[front.length]? = some (',', .code))
    (hdepth : 0 < enclosure (code ++ codeChars
      ((((ScanState.mode ⟨state.inComment⟩).markedLines
        (above ++ (front ++ ',' :: after) :: below)).take above.length).flatten ++
          row.take front.length)))
    (hcomment : opensComment (after.dropWhile isBlank) = false) (first : Nat) :
    (commaLines state first (above ++ (front ++ [',']) :: after :: below)).1.map (·.fault) =
      (commaLines state first (above ++ (front ++ ',' :: after) :: below)).1.map (·.fault) := by
  have hlength : ((ScanState.mode ⟨state.inComment⟩).markedLines above).length = above.length := by
    rw [← List.length_map (·.map Prod.fst), Mode.map_fst_markedLines]
  have hmarked := markedLines_append ((front ++ ',' :: after) :: below) state first above
    ((front ++ ',' :: after) :: below)
  have htracks := tracks_commaLinesAbove h ((front ++ ',' :: after) :: below) first above
  rw [hmarked, ← hlength, List.getElem?_append_right (Nat.le_refl _), Nat.sub_self] at hrow
  rw [hmarked, ← hlength, List.take_left, codeChars_append, ← List.append_assoc] at hdepth
  obtain rfl := Option.some.inj hrow
  have hstate := commaLinesAbove_state ((front ++ [',']) :: after :: below)
    ((front ++ ',' :: after) :: below) state first above
  have habove := @commaLinesAbove_congr _ _ above state first
    (@nextSignificant?_break front after ⟨_⟩ hcomma below)
  rw [commaLines_append, commaLines_append, hstate, ← habove]
  simp only [List.map_append]
  rw [commaLines_break htracks hcomma hdepth hcomment]

theorem exists_around {α : Type} {xs : List α} {i : Nat} {x : α} (h : xs[i]? = some x) :
    ∃ front back, xs = front ++ x :: back ∧ front.length = i := by
  obtain ⟨hlt, rfl⟩ := List.getElem?_eq_some_iff.mp h
  refine ⟨xs.take i, xs.drop (i + 1), ?_, List.length_take_of_le (Nat.le_of_lt hlt)⟩
  rw [← List.drop_eq_getElem_cons hlt, List.take_append_drop]

theorem intercalate_behind (piece : Text) (below : List Text) :
    ['\n'].intercalate (piece :: below) = piece ++ below.flatMap ('\n' :: ·) := by
  induction below generalizing piece with
  | nil => simp
  | cons next more ih =>
    rw [List.intercalate_cons_cons, ih next]
    simp

/-- A piece of a text, with what stands in front of it and behind it. -/
theorem intercalate_around (above below : List Text) (piece : Text) :
    ['\n'].intercalate (above ++ piece :: below) =
      above.flatMap (· ++ ['\n']) ++ (piece ++ below.flatMap ('\n' :: ·)) := by
  induction above with
  | nil => exact intercalate_behind piece below
  | cons first more ih =>
    obtain ⟨next, rest, hrest⟩ := List.exists_cons_of_ne_nil
      (show more ++ piece :: below ≠ [] by simp)
    rw [List.cons_append, hrest, List.intercalate_cons_cons, ← hrest, ih, List.flatMap_cons]
    simp

theorem pieceStart_around (above below : List Text) (piece : Text) :
    pieceStart (above ++ piece :: below) above.length = (above.flatMap (· ++ ['\n'])).length := by
  induction above with
  | nil => simp
  | cons first more ih =>
    simp [ih]
    omega

/-- A line feed behind a comma breaks the piece in which the comma stands, and no other. -/
theorem splitOn_break {text : Text} {above below : List Text} {left right : Text}
    (h : text.splitOn '\n' = above ++ (left ++ ',' :: right) :: below) :
    ∃ front back, text = front ++ ',' :: back ∧
      front.length = pieceStart (text.splitOn '\n') above.length + left.length ∧
      (front ++ ',' :: '\n' :: back).splitOn '\n' = above ++ (left ++ [',']) :: right :: below := by
  have hclean : ∀ p ∈ above ++ (left ++ ',' :: right) :: below, '\n' ∉ p :=
    fun p hp => newline_not_mem_of_mem_splitOn (h ▸ hp)
  have hparts : ∀ p ∈ above ++ (left ++ [',']) :: right :: below, '\n' ∉ p := by
    have hpiece : '\n' ∉ left ++ ',' :: right := hclean _ (by simp)
    simp only [List.mem_append, List.mem_cons, not_or] at hpiece
    intro p hp
    simp only [List.mem_append, List.mem_cons] at hp
    rcases hp with hp | rfl | rfl | hp
    · exact hclean p (by simp [hp])
    · simpa using hpiece.1
    · exact hpiece.2.2
    · exact hclean p (by simp [hp])
  have htext := intercalate_around above below (left ++ ',' :: right)
  have hbroken := intercalate_around above (right :: below) (left ++ [','])
  rw [← h, List.intercalate_splitOn] at htext
  refine ⟨above.flatMap (· ++ ['\n']) ++ left, right ++ below.flatMap ('\n' :: ·), ?_, ?_, ?_⟩
  · simpa using htext
  · rw [h, pieceStart_around, List.length_append]
  · rw [← List.splitOn_intercalate '\n' hparts (by simp), hbroken]
    simp

theorem chopReturn_around (front : Line) {c : Char} (hc : c ≠ '\r') (rest : Line) :
    chopReturn (front ++ c :: rest) = front ++ c :: chopReturn rest := by
  obtain rfl | ⟨body, d, rfl⟩ := List.eq_nil_or_concat rest
  · simp [chopReturn, hc]
  · rw [List.concat_eq_append, ← List.cons_append, ← List.append_assoc]
    unfold chopReturn
    rw [List.getLast?_concat, List.getLast?_concat, List.dropLast_concat, List.dropLast_concat]
    split <;> simp

/-- A line break behind a comma breaks its line there and leaves the other lines as they are. -/
theorem lines_break {text : Text} {l c : Nat} {whole : Line}
    (hwhole : (lines text)[l]? = some whole) (hcomma : whole[c]? = some ',') :
    ∃ front back above below left right, text = front ++ ',' :: back ∧
      offsetOf (lineStarts text).toArray text.length ⟨l, c⟩ = front.length ∧
      above.length = l ∧ left.length = c ∧ whole = left ++ ',' :: right ∧
      lines text = above ++ whole :: below ∧
      lines (front ++ ',' :: '\n' :: back) = above ++ (left ++ [',']) :: right :: below := by
  rw [lines_getElem?, Option.map_eq_some_iff] at hwhole
  obtain ⟨piece, hpiece, rfl⟩ := hwhole
  obtain ⟨above, below, hpieces, rfl⟩ := exists_around hpiece
  obtain ⟨left, right, hparts, rfl⟩ := exists_around hcomma
  -- The piece is the line with perhaps a carriage return, which goes to the right part.
  obtain ⟨ending, hending, -⟩ := chopReturn_append piece
  rw [hparts, List.append_assoc, List.cons_append] at hending
  have hleft := chopReturn_around left (show ',' ≠ '\r' by decide) []
  have hright := chopReturn_around left (show ',' ≠ '\r' by decide) (right ++ ending)
  rw [← hending, hparts, List.append_cancel_left_eq, List.cons.injEq] at hright
  have hle : left.length ≤ piece.length := by
    rw [hending, List.length_append]
    exact Nat.le_add_right _ _
  obtain ⟨front, back, htext, hlength, hbroken⟩ := splitOn_break (hending ▸ hpieces)
  refine ⟨front, back, above.map chopReturn, below.map chopReturn, left, right, htext, ?_, ?_, rfl,
    hparts, ?_, ?_⟩
  · rw [hlength, @offsetOf_eq text piece ⟨above.length, left.length⟩ hpiece hle]
  · rw [List.length_map]
  · rw [lines, hpieces, List.map_append, List.map_cons]
  · rw [lines, hbroken, List.map_append, List.map_cons, List.map_cons, ← hright.2, hleft]
    rfl

/-- A line break directly behind an enclosed comma of code, behind which no comment comes next on
its line, changes no verdict: the document has the same misplaced commas, with the same faults in
the same order. -/
theorem break_behind_comma_keeps_faults {text : Text} {l c : Nat} {row : List (Char × Mark)}
    (hcomma : CodeComma text l c row) (hdepth : 0 < enclosure (codeBefore text l c row))
    (hcomment : opensComment (((row.map Prod.fst).drop (c + 1)).dropWhile isBlank) = false) :
    ∃ front back, text = front ++ ',' :: back ∧
      offsetOf (lineStarts text).toArray text.length ⟨l, c⟩ = front.length ∧
      (commaIssues (front ++ ',' :: '\n' :: back)).map (·.fault) =
        (commaIssues text).map (·.fault) := by
  obtain ⟨hrow, hchar⟩ := hcomma
  have hwhole : (lines text)[l]? = some (row.map Prod.fst) := by
    have hlines := Mode.map_fst_markedLines .code (lines text)
    rw [← hlines, List.getElem?_map, ← marking, hrow, Option.map_some]
  obtain ⟨front, back, above, below, left, right, htext, hoffset, rfl, rfl, hparts, hlines,
    hbroken⟩ := @lines_break text l c _ hwhole (by rw [List.getElem?_map, hchar, Option.map_some])
  rw [hparts] at hlines hcomment
  rw [marking, hlines] at hrow
  rw [codeBefore, marking, hlines] at hdepth
  refine ⟨front, back, htext, hoffset, ?_⟩
  rw [commaIssues, commaIssues, hbroken, hlines]
  exact commaLines_break_below tracks_start hrow hchar hdepth (by simpa using hcomment) 0

/-- A comma in front of a closing bracket that stands on the same line, and then on the next. -/
theorem break_behind_comma_before_closer :
    0 < enclosure (codeBefore "([1,\t])".toList 0 3 (Mode.code.marked "([1,\t])".toList)) ∧
      (commaIssues "([1,\t])".toList).map (·.fault) = [.trailing] ∧
      (commaIssues "([1,\n\t])".toList).map (·.fault) =
        (commaIssues "([1,\t])".toList).map (·.fault) := by
  have hdepth :
      0 < enclosure (codeBefore "([1,\t])".toList 0 3 (Mode.code.marked "([1,\t])".toList)) := by
    decide
  obtain ⟨front, back, htext, hoffset, hfaults⟩ :=
    @break_behind_comma_keeps_faults "([1,\t])".toList 0 3 (Mode.code.marked "([1,\t])".toList)
      ⟨by decide, by decide⟩ hdepth (by decide)
  have hlength : front.length = ['(', '[', '1'].length := by
    rw [← hoffset]
    decide
  obtain ⟨rfl, hback⟩ := List.append_inj
    (show front ++ ',' :: back = ['(', '[', '1'] ++ [',', '\t', ']', ')'] from htext.symm) hlength
  cases hback
  exact ⟨hdepth, by cbv, hfaults⟩

end CalcLint
