import CalcLint.Proofs.Marks

/-!
# Which commas are misplaced

What is wrong with a comma is said here from the marked characters of the document alone: from the
code in front of the comma, from the first visible character behind it on its line, and, if there
is none, from the first visible code further down. The comma pass leaps over comments and strings,
carries two depths along and looks ahead with a loop of its own; it reports exactly these commas, in
reading order.
-/
namespace CalcLint

/-- The characters of a document with their marks. -/
def marking (text : Text) : List (List (Char × Mark)) :=
  Mode.code.markedLines (lines text)

def codeChars (row : List (Char × Mark)) : List Char :=
  (row.filter (·.2 = .code)).map Prod.fst

/-- How many enclosures of one kind are open behind some code. A closer without an opener leaves
none. -/
def clampedDepth (opener closer : Char) (code : List Char) : Int :=
  code.foldl
    (fun d c => if c = opener then d + 1 else if c = closer then max (d - 1) 0 else d) 0

/-- How many parentheses and brackets are open behind some code. -/
def enclosure (code : List Char) : Int :=
  clampedDepth '(' ')' code + clampedDepth '[' ']' code

/-- A comma of code in column `c` of line `l`, whose marked characters are `row`. -/
def CodeComma (text : Text) (l c : Nat) (row : List (Char × Mark)) : Prop :=
  (marking text)[l]? = some row ∧ row[c]? = some (',', .code)

/-- The code in front of column `c` of line `l`. -/
def codeBefore (text : Text) (l c : Nat) (row : List (Char × Mark)) : List Char :=
  codeChars (((marking text).take l).flatten ++ row.take c)

/-- The first character that is not blank, with `gap` blanks in front of it. What the characters are
taken for does not matter. -/
def FirstVisible (row : List (Char × Mark)) (gap : Nat) (x : Char) : Prop :=
  (row.map Prod.fst)[gap]? = some x ∧ isBlank x = false ∧
    ∀ b ∈ (row.map Prod.fst).take gap, isBlank b = true

/-- The first character below line `l` that is code or opens a string and is not blank. -/
def firstSeenBelow (text : Text) (l : Nat) : Option Char :=
  (((marking text).drop (l + 1)).flatten.find? isSeen).map Prod.fst

/-- The misplaced commas of a document. -/
inductive Misplaced (text : Text) : CommaIssue → Prop
  | doubleHere {l c gap : Nat} {row : List (Char × Mark)} :
      CodeComma text l c row → FirstVisible (row.drop (c + 1)) gap ',' →
        Misplaced text ⟨.double, l, c, gap + 2⟩
  | trailingHere {l c gap : Nat} {row : List (Char × Mark)} {closer : Char} :
      CodeComma text l c row → FirstVisible (row.drop (c + 1)) gap closer →
        (closer = ')' ∨ closer = ']') → Misplaced text ⟨.trailing, l, c, 1⟩
  | doubleBelow {l c : Nat} {row : List (Char × Mark)} :
      CodeComma text l c row → (∀ x ∈ row.drop (c + 1), isBlank x.1 = true) →
        firstSeenBelow text l = some ',' → Misplaced text ⟨.double, l, c, 1⟩
  | trailingBelow {l c : Nat} {row : List (Char × Mark)} {closer : Char} :
      CodeComma text l c row → (∀ x ∈ row.drop (c + 1), isBlank x.1 = true) →
        firstSeenBelow text l = some closer → (closer = ')' ∨ closer = ']') →
          0 < enclosure (codeBefore text l c row) → Misplaced text ⟨.trailing, l, c, 1⟩

@[simp] theorem codeChars_append (row row' : List (Char × Mark)) :
    codeChars (row ++ row') = codeChars row ++ codeChars row' := by
  simp [codeChars]

@[simp] theorem codeChars_code (c : Char) : codeChars [(c, .code)] = [c] := rfl

@[simp] theorem codeChars_paint {mark : Mark} (h : mark ≠ .code) (chars : Line) :
    codeChars (paint mark chars) = [] := by
  simp [codeChars, paint, List.filter_map, Function.comp_def, h]

/-- The depths of a state are those behind some code. -/
structure Tracks (state : CommaState) (code : List Char) : Prop where
  parens : state.parens = clampedDepth '(' ')' code
  brackets : state.brackets = clampedDepth '[' ']' code

theorem Tracks.depth {state : CommaState} {code : List Char} (h : Tracks state code) :
    state.depth = enclosure code := by
  rw [CommaState.depth, h.parens, h.brackets, enclosure]

theorem Tracks.inComment {state : CommaState} {code : List Char} (h : Tracks state code)
    (inComment : Bool) : Tracks { state with inComment := inComment } code :=
  ⟨h.parens, h.brackets⟩

theorem clampedDepth_concat (opener closer : Char) (code : List Char) (c : Char) :
    clampedDepth opener closer (code ++ [c]) =
      if c = opener then clampedDepth opener closer code + 1
      else if c = closer then max (clampedDepth opener closer code - 1) 0
      else clampedDepth opener closer code := by
  rw [clampedDepth, List.foldl_append]
  rfl

@[simp] theorem closeDepth_eq (depth : Int) : closeDepth depth = max (depth - 1) 0 := by
  unfold closeDepth
  split <;> omega

theorem Tracks.step {state : CommaState} {code : List Char} (h : Tracks state code) (c : Char) :
    Tracks (state.step c) (code ++ [c]) := by
  obtain ⟨hparens, hbrackets⟩ := h
  constructor
  · rw [clampedDepth_concat, ← hparens, ← closeDepth_eq]
    unfold CommaState.step
    split <;> simp_all
  · rw [clampedDepth_concat, ← hbrackets, ← closeDepth_eq]
    unfold CommaState.step
    split <;> simp_all

/-- Judge the commas of marked characters that start at `column`, with `code` in front of them. -/
def judgeRow (below : List Line) (code : List Char) (column : Nat) :
    List (Char × Mark) → List CommaSpot
  | [] => []
  | x :: rest =>
    (if x = (',', .code) then
        (judgeComma (decide (0 < enclosure code)) below column (rest.map Prod.fst)).toList
      else []) ++
      judgeRow below (code ++ codeChars [x]) (column + 1) rest

theorem judgeRow_paint {mark : Mark} (h : mark ≠ .code) (below : List Line) (code : List Char)
    (column : Nat) (chars : Line) (row : List (Char × Mark)) :
    judgeRow below code column (paint mark chars ++ row) =
      judgeRow below code (column + chars.length) row := by
  induction chars generalizing column with
  | nil => rfl
  | cons c chars ih =>
    have hnone : codeChars [(c, mark)] = [] := codeChars_paint h [c]
    have hstep : judgeRow below code column (paint mark (c :: chars) ++ row) =
        judgeRow below code (column + 1) (paint mark chars ++ row) := by
      simp [paint, judgeRow, h, hnone]
    rw [hstep, ih, List.length_cons, Nat.add_right_comm, Nat.add_assoc]

/-- What the comma pass makes of code: it judges its commas, and its depths go on to those behind
it. -/
structure Judged (below : List Line) (code : List Char) (column : Nat) (row : List (Char × Mark))
    (result : List CommaSpot × CommaState) : Prop where
  spots : result.1 = judgeRow below code column row
  tracks : Tracks result.2 (code ++ codeChars row)

section
variable {below : List Line} {code : List Char} {column : Nat} {row : List (Char × Mark)}
  {result : List CommaSpot × CommaState}

theorem Judged.nil {state : CommaState} (h : Tracks state code) :
    Judged below code column [] ([], state) :=
  ⟨rfl, by simpa [codeChars] using h⟩

theorem Judged.skip {mark : Mark} (hmark : mark ≠ .code) {chars : Line}
    (h : Judged below code (column + chars.length) row result) :
    Judged below code column (paint mark chars ++ row) result where
  spots := by rw [judgeRow_paint hmark, h.spots]
  tracks := by
    rw [codeChars_append, codeChars_paint hmark, List.nil_append]
    exact h.tracks

/-- A leap over what is not code, up to the column `stop`. -/
theorem Judged.leap {mark : Mark} (hmark : mark ≠ .code) {chars : Line} {stop : Nat}
    (hle : column ≤ stop) (hstop : stop ≤ column + chars.length)
    (h : Judged below code stop row result) :
    Judged below code column (paint mark (chars.take (stop - column)) ++ row) result := by
  have hlength : column + (chars.take (stop - column)).length = stop := by
    rw [List.length_take]
    omega
  apply Judged.skip hmark
  rwa [hlength]

theorem Judged.cons {x : Char × Mark} (hx : x ≠ (',', .code))
    (h : Judged below (code ++ codeChars [x]) (column + 1) row result) :
    Judged below code column (x :: row) result where
  spots := by rw [judgeRow, if_neg hx, List.nil_append, h.spots]
  tracks := by
    rw [← List.singleton_append, codeChars_append, ← List.append_assoc]
    exact h.tracks

theorem Judged.comma (h : Judged below (code ++ [',']) (column + 1) row result) :
    Judged below code column ((',', .code) :: row)
      ((judgeComma (decide (0 < enclosure code)) below column (row.map Prod.fst)).toList ++
        result.1, result.2) where
  spots := by rw [judgeRow, if_pos rfl, codeChars_code, h.spots]
  tracks := by
    rw [← List.singleton_append, codeChars_append, codeChars_code, ← List.append_assoc]
    exact h.tracks

end

/-- The comma pass over code judges its commas one by one. -/
theorem commaCode_judged {m : Mode} {rest : Line} (hm : Ready m rest) {state : CommaState}
    {code : List Char} (h : Tracks state code) (below : List Line) (column : Nat) :
    Judged below code column (m.marked rest) (commaCode below state column rest) := by
  induction state, column, rest using commaCode_induction generalizing m code with
  | nil state column =>
    rw [commaCode_nil]
    exact Judged.nil (h.inComment false)
  | opened state column tail hnone =>
    rw [commaCode_open hnone, hm.marked_open hnone, ← List.append_nil (paint _ _)]
    exact Judged.skip (by decide) (Judged.nil (h.inComment true))
  | comment state column tail after hsome ih =>
    rw [commaCode_comment hsome, hm.marked_comment hsome]
    obtain ⟨k, hk, rfl⟩ := afterComment_eq_drop hsome
    exact Judged.leap (by decide) (by omega) (by simp only [List.length_cons]; omega)
      (ih (Or.inl rfl) h)
  | string state column tail ih =>
    rw [commaCode_string, hm.marked_string (column + 1)]
    obtain ⟨k, hk, heq⟩ := afterString_eq_drop (column + 1) tail
    rw [heq] at ih ⊢
    exact Judged.cons (by decide) (Judged.leap (by decide) (by omega) (by simp only; omega)
      (ih (Or.inl rfl) (by simpa [codeChars] using h)))
  | comma state column tail ih =>
    have hclosed := opensComment_of_ne (c := ',') (by decide) tail
    rw [commaCode_comma, hm.marked_other hclosed (by decide), h.depth]
    have hcomma := Judged.comma (ih (hm.step hclosed (by decide)) (h.step ','))
    rwa [Mode.map_fst_marked] at hcomma
  | other state column c tail hopen hquote hcomma ih =>
    rw [commaCode_other hopen hquote hcomma, hm.marked_other hopen hquote]
    exact Judged.cons (by simpa using hcomma) (ih (hm.step hopen hquote) (h.step c))

theorem commaLine_judged {state : CommaState} {code : List Char} (h : Tracks state code)
    (line : Line) (below : List Line) :
    Judged below code 0 ((ScanState.mode ⟨state.inComment⟩).marked line)
      (commaLine state line below) := by
  unfold commaLine ScanState.mode
  by_cases hopen : state.inComment = true
  · simp only [if_pos hopen]
    cases hafter : afterComment 0 line with
    | none =>
      rw [marked_comment_open (Or.inl rfl) hafter, ← List.append_nil (paint _ _)]
      exact Judged.skip (by decide) (Judged.nil h)
    | some after =>
      rw [marked_comment_closed (Or.inl rfl) hafter]
      obtain ⟨k, hk, rfl⟩ := afterComment_eq_drop hafter
      exact Judged.leap (by decide) (by omega) (by simp only; omega)
        (commaCode_judged (Or.inl rfl) h below (0 + k))
  · simp only [if_neg hopen]
    exact commaCode_judged (Or.inl rfl) h below 0

theorem mem_judgeRow {below : List Line} {code : List Char} {column : Nat}
    {row : List (Char × Mark)} {spot : CommaSpot} :
    spot ∈ judgeRow below code column row ↔ ∃ k, row[k]? = some (',', .code) ∧
      judgeComma (decide (0 < enclosure (code ++ codeChars (row.take k)))) below (column + k)
        ((row.drop (k + 1)).map Prod.fst) = some spot := by
  induction row generalizing code column with
  | nil => simp [judgeRow]
  | cons x rest ih =>
    rw [judgeRow, List.mem_append, ih]
    constructor
    · rintro (h | ⟨k, hk, hspot⟩)
      · by_cases hx : x = (',', .code)
        · rw [if_pos hx, Option.mem_toList] at h
          exact ⟨0, by simp [hx], by simpa [codeChars] using h⟩
        · simp [hx] at h
      · refine ⟨k + 1, hk, ?_⟩
        rw [List.append_assoc, ← codeChars_append, List.singleton_append, Nat.add_assoc,
          Nat.add_comm 1 k] at hspot
        exact hspot
    · rintro ⟨k, hk, hspot⟩
      cases k with
      | zero =>
        left
        have hx : x = (',', .code) := by simpa using hk
        rw [if_pos hx, Option.mem_toList]
        simpa [codeChars] using hspot
      | succ k =>
        refine Or.inr ⟨k, hk, ?_⟩
        rw [List.append_assoc, ← codeChars_append, List.singleton_append, Nat.add_assoc,
          Nat.add_comm 1 k]
        exact hspot

/-- The commas of a line are judged from left to right. -/
theorem judgeRow_pairwise (below : List Line) (code : List Char) (column : Nat)
    (row : List (Char × Mark)) :
    (judgeRow below code column row).Pairwise fun s t => s.column < t.column := by
  induction row generalizing code column with
  | nil => exact List.Pairwise.nil
  | cons x rest ih =>
    rw [judgeRow, List.pairwise_append]
    refine ⟨?_, ih _ _, ?_⟩
    · split
      · cases judgeComma (decide (0 < enclosure code)) below column (rest.map Prod.fst) <;> simp
      · exact List.Pairwise.nil
    · intro s hs t ht
      obtain ⟨k, _, hk⟩ := mem_judgeRow.mp ht
      split at hs
      · rw [column_of_judgeComma (Option.mem_toList.mp hs), column_of_judgeComma hk]
        omega
      · simp at hs

/-- The comma pass over lines judges the commas of each line, with the code of the lines above in
front of them and the lines below to look at. -/
theorem mem_commaLines {state : CommaState} {code : List Char} (h : Tracks state code) {first : Nat}
    {document : List Line} {issue : CommaIssue} :
    issue ∈ (commaLines state first document).1 ↔
      ∃ l row, ((ScanState.mode ⟨state.inComment⟩).markedLines document)[l]? = some row ∧
        ∃ spot ∈ judgeRow (document.drop (l + 1)) (code ++ codeChars
            (((ScanState.mode ⟨state.inComment⟩).markedLines document).take l).flatten) 0 row,
          spot.onLine (first + l) = issue := by
  induction document generalizing state code first with
  | nil => simp [commaLines, Mode.markedLines]
  | cons line below ih =>
    obtain ⟨hspots, htracks⟩ := commaLine_judged h line below
    rw [commaLines, List.mem_append, ih htracks, mode_commaLine, hspots, List.mem_map,
      Mode.markedLines]
    constructor
    · rintro (⟨spot, hspot, hissue⟩ | ⟨l, row, hrow, spot, hspot, hissue⟩)
      · exact ⟨0, _, rfl, spot, by simpa [codeChars] using hspot, hissue⟩
      · refine ⟨l + 1, row, hrow, spot, ?_, by rw [← hissue, Nat.add_right_comm, Nat.add_assoc]⟩
        rw [List.append_assoc, ← codeChars_append] at hspot
        exact hspot
    · rintro ⟨l, row, hrow, spot, hspot, hissue⟩
      cases l with
      | zero =>
        cases hrow
        exact Or.inl ⟨spot, by simpa [codeChars] using hspot, hissue⟩
      | succ l =>
        refine Or.inr ⟨l, row, hrow, spot, ?_, by rw [← hissue, Nat.add_right_comm, Nat.add_assoc]⟩
        rw [List.append_assoc, ← codeChars_append]
        exact hspot

/-- Reading order: on a later line, or further right on the same one. -/
def CommaIssue.Before (i j : CommaIssue) : Prop :=
  i.line < j.line ∨ i.line = j.line ∧ i.column < j.column

theorem commaLines_pairwise {state : CommaState} {code : List Char} (h : Tracks state code)
    (first : Nat) (document : List Line) :
    (commaLines state first document).1.Pairwise CommaIssue.Before := by
  induction document generalizing state code first with
  | nil => exact List.Pairwise.nil
  | cons line below ih =>
    obtain ⟨hspots, htracks⟩ := commaLine_judged h line below
    rw [commaLines, List.pairwise_append]
    refine ⟨?_, ih htracks _, ?_⟩
    · rw [List.pairwise_map, hspots]
      exact (judgeRow_pairwise _ _ _ _).imp (fun hlt => Or.inr ⟨rfl, hlt⟩)
    · intro i hi j hj
      obtain ⟨spot, _, rfl⟩ := List.mem_map.mp hi
      obtain ⟨l, _, _, spot', _, rfl⟩ := (mem_commaLines htracks).mp hj
      left
      simp only [CommaSpot.onLine]
      omega

theorem tracks_start : Tracks {} [] :=
  ⟨rfl, rfl⟩

theorem mem_commaIssues {text : Text} {issue : CommaIssue} :
    issue ∈ commaIssues text ↔ ∃ l c row, CodeComma text l c row ∧
      ∃ spot, judgeComma (decide (0 < enclosure (codeBefore text l c row)))
        ((lines text).drop (l + 1)) c ((row.drop (c + 1)).map Prod.fst) = some spot ∧
          spot.onLine l = issue := by
  rw [commaIssues, mem_commaLines tracks_start]
  simp only [mem_judgeRow, List.nil_append, Nat.zero_add, ← codeChars_append]
  constructor
  · rintro ⟨l, row, hrow, spot, ⟨c, hcomma, hspot⟩, hissue⟩
    exact ⟨l, c, row, ⟨hrow, hcomma⟩, spot, hspot, hissue⟩
  · rintro ⟨l, c, row, ⟨hrow, hcomma⟩, spot, hspot, hissue⟩
    exact ⟨l, row, hrow, spot, ⟨c, hcomma, hspot⟩, hissue⟩

theorem firstVisible_iff {row : List (Char × Mark)} {gap : Nat} {x : Char} :
    FirstVisible row gap x ↔ ((row.map Prod.fst).takeWhile isBlank).length = gap ∧
      ∃ tail, (row.map Prod.fst).dropWhile isBlank = x :: tail := by
  unfold FirstVisible
  induction row generalizing gap with
  | nil => simp
  | cons y row ih =>
    rw [List.map_cons]
    by_cases hblank : isBlank y.1 = true
    · rw [List.takeWhile_cons_of_pos hblank, List.dropWhile_cons_of_pos hblank, List.length_cons]
      cases gap with
      | zero =>
        constructor
        · rintro ⟨hx, hvisible, _⟩
          cases hx
          simp [hblank] at hvisible
        · rintro ⟨hgap, _⟩
          omega
      | succ gap => simpa [hblank] using ih
    · rw [List.takeWhile_cons_of_neg hblank, List.dropWhile_cons_of_neg hblank]
      cases gap with
      | zero =>
        constructor
        · rintro ⟨hx, _, _⟩
          cases hx
          exact ⟨rfl, _, rfl⟩
        · rintro ⟨_, tail, htail⟩
          cases htail
          exact ⟨rfl, by simpa using hblank, by simp⟩
      | succ gap => simp [hblank]

@[simp] theorem isCloser_iff {c : Char} : isCloser c = true ↔ c = ')' ∨ c = ']' := by
  simp [isCloser]

/-- How a comma is judged, by the first visible character behind it on its line, or by what the
look-ahead finds if there is none. -/
theorem judgeComma_eq_some_iff {enclosed : Bool} {below : List Line} {column : Nat}
    {row : List (Char × Mark)} {spot : CommaSpot} :
    judgeComma enclosed below column (row.map Prod.fst) = some spot ↔
      (∃ gap, FirstVisible row gap ',' ∧ ⟨.double, column, gap + 2⟩ = spot) ∨
      (∃ gap closer, FirstVisible row gap closer ∧ (closer = ')' ∨ closer = ']') ∧
        ⟨.trailing, column, 1⟩ = spot) ∨
      (∀ x ∈ row, isBlank x.1 = true) ∧
        (nextSignificant? false below = some ',' ∧ ⟨.double, column, 1⟩ = spot ∨
          enclosed = true ∧ (∃ closer, nextSignificant? false below = some closer ∧
            (closer = ')' ∨ closer = ']')) ∧ ⟨.trailing, column, 1⟩ = spot) := by
  have hall : (∀ x ∈ row, isBlank x.1 = true) ↔ (row.map Prod.fst).dropWhile isBlank = [] := by
    simp [List.dropWhile_eq_nil_iff]
  simp only [firstVisible_iff, hall]
  unfold judgeComma
  cases hdrop : (row.map Prod.fst).dropWhile isBlank with
  | cons c tail =>
    by_cases hcomma : c = ','
    · subst hcomma
      simp
    · by_cases hcloser : c = ')' ∨ c = ']'
      · simp [hcomma, hcloser]
      · simp [hcomma, hcloser]
  | nil =>
    cases hnext : nextSignificant? false below with
    | none => simp
    | some c =>
      by_cases hcomma : c = ','
      · subst hcomma
        simp
      · by_cases hcloser : c = ')' ∨ c = ']'
        · simp [hcomma, hcloser]
        · simp [hcomma, hcloser]

namespace Mode

/-- The lines below a line are read in the mode that it leaves. -/
theorem markedLines_below {m : Mode} {document : List Line} {l : Nat} {row : List (Char × Mark)}
    (h : (m.markedLines document)[l]? = some row) :
    ∃ m' : Mode, ∃ line, row = m'.marked line ∧ (m.markedLines document).drop (l + 1) =
      (m'.after line).atBreak.markedLines (document.drop (l + 1)) := by
  induction document generalizing m l with
  | nil => simp [markedLines] at h
  | cons line below ih =>
    cases l with
    | zero =>
      cases h
      exact ⟨m, line, rfl, rfl⟩
    | succ l => exact ih h

theorem after_blanks {rest : Line} (h : ∀ c ∈ rest, isBlank c = true) : code.after rest = code := by
  induction rest with
  | nil => rfl
  | cons c rest ih =>
    have hc : isBlank c = true := h c List.mem_cons_self
    have h1 : c ≠ '/' := ne_of_class hc (by decide)
    have h2 : c ≠ '"' := ne_of_class hc (by decide)
    have hnext : code.next c = code := by simp [next, h1, h2]
    rw [after_cons, hnext]
    exact ih (fun x hx => h x (List.mem_cons_of_mem c hx))

theorem next_comma {m : Mode} {rest : Line} (h : m.mark (',' :: rest) = .code) :
    m.next ',' = code := by
  cases m with
  | code => rfl
  | slash => rfl
  | comment => cases h
  | star => cases h
  | string => cases h
  | escape => cases h

/-- Behind a comma of code with only blanks after it no comment is open. -/
theorem atBreak_of_comma {m : Mode} {line : Line} {k : Nat}
    (hcomma : (m.marked line)[k]? = some (',', .code))
    (hblank : ∀ x ∈ (m.marked line).drop (k + 1), isBlank x.1 = true) :
    (m.after line).atBreak = code := by
  induction line generalizing m k with
  | nil => simp at hcomma
  | cons c rest ih =>
    cases k with
    | zero =>
      obtain ⟨rfl, hmark⟩ : c = ',' ∧ m.mark (c :: rest) = .code := by
        simpa [marked] using hcomma
      have hrest : ∀ x ∈ rest, isBlank x = true := by
        intro x hx
        rw [← map_fst_marked (m.next ',') rest] at hx
        obtain ⟨y, hy, rfl⟩ := List.mem_map.mp hx
        exact hblank y hy
      rw [after_cons, next_comma hmark, after_blanks hrest]
      rfl
    | succ k => exact ih hcomma hblank

end Mode

/-- The look-ahead of a comma at the end of its line starts in code, as the passes do there. -/
theorem nextSignificant?_of_comma {text : Text} {l c : Nat} {row : List (Char × Mark)}
    (hcomma : CodeComma text l c row) (hblank : ∀ x ∈ row.drop (c + 1), isBlank x.1 = true) :
    nextSignificant? false ((lines text).drop (l + 1)) = firstSeenBelow text l := by
  obtain ⟨hrow, hcomma⟩ := hcomma
  obtain ⟨m, line, rfl, hbelow⟩ := Mode.markedLines_below hrow
  rw [Mode.atBreak_of_comma hcomma hblank] at hbelow
  rw [firstSeenBelow, marking, hbelow]
  exact nextSignificant?_eq ⟨false⟩ _

/-- The comma pass reports exactly the misplaced commas, each of them once and in reading order. -/
theorem commaIssues_iff_misplaced (text : Text) :
    (commaIssues text).Pairwise CommaIssue.Before ∧
      ∀ issue, issue ∈ commaIssues text ↔ Misplaced text issue := by
  refine ⟨commaLines_pairwise tracks_start 0 (lines text), fun issue => ?_⟩
  rw [mem_commaIssues]
  simp only [judgeComma_eq_some_iff, decide_eq_true_eq]
  constructor
  · rintro ⟨l, c, row, hcomma, spot, hspot, rfl⟩
    rcases hspot with ⟨gap, hfirst, rfl⟩ | ⟨gap, closer, hfirst, hcloser, rfl⟩ | ⟨hblank, hspot⟩
    · exact .doubleHere hcomma hfirst
    · exact .trailingHere hcomma hfirst hcloser
    · rw [nextSignificant?_of_comma hcomma hblank] at hspot
      rcases hspot with ⟨hnext, rfl⟩ | ⟨hdepth, ⟨closer, hnext, hcloser⟩, rfl⟩
      · exact .doubleBelow hcomma hblank hnext
      · exact .trailingBelow hcomma hblank hnext hcloser hdepth
  · intro h
    cases h with
    | doubleHere hcomma hfirst =>
      exact ⟨_, _, _, hcomma, _, Or.inl ⟨_, hfirst, rfl⟩, rfl⟩
    | trailingHere hcomma hfirst hcloser =>
      exact ⟨_, _, _, hcomma, _, Or.inr (Or.inl ⟨_, _, hfirst, hcloser, rfl⟩), rfl⟩
    | doubleBelow hcomma hblank hnext =>
      rw [← nextSignificant?_of_comma hcomma hblank] at hnext
      exact ⟨_, _, _, hcomma, _, Or.inr (Or.inr ⟨hblank, Or.inl ⟨hnext, rfl⟩⟩), rfl⟩
    | trailingBelow hcomma hblank hnext hcloser hdepth =>
      rw [← nextSignificant?_of_comma hcomma hblank] at hnext
      exact ⟨_, _, _, hcomma, _,
        Or.inr (Or.inr ⟨hblank, Or.inr ⟨hdepth, ⟨_, hnext, hcloser⟩, rfl⟩⟩), rfl⟩

end CalcLint
