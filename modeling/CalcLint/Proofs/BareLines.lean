import CalcLint.Proofs.CommaLook

/-!
# Carriage returns at the end of a line

Only one carriage return in front of a line feed belongs to the line break; further ones stay in the
line. Neither pass over a line sees them: they are blank, they are part of no keyword, and they open
and close nothing. So a document may be looked at through its bare lines, which do not depend on how
its lines end.
-/
namespace CalcLint

/-- A line without the carriage returns at its end. -/
def bare (line : Line) : Line :=
  line.rdropWhile (· == '\r')

@[simp] theorem bare_nil : bare [] = [] := rfl

@[simp] theorem bare_return (line : Line) : bare (line ++ ['\r']) = bare line := by
  simp [bare]

@[simp] theorem bare_concat (line : Line) {c : Char} (h : c ≠ '\r') :
    bare (line ++ [c]) = line ++ [c] := by
  simp [bare, h]

theorem bare_cons (c : Char) (line : Line) :
    bare (c :: line) = if bare line = [] ∧ c = '\r' then [] else c :: bare line := by
  induction line using List.reverseRecOn with
  | nil => by_cases h : c = '\r' <;> simp [bare, List.rdropWhile_singleton, h]
  | append_singleton front d ih =>
    rw [← List.cons_append]
    by_cases h : d = '\r'
    · rw [h, bare_return, bare_return, ih]
    · rw [bare_concat _ h, bare_concat _ h]
      simp

@[simp] theorem bare_chopReturn (piece : Line) : bare (chopReturn piece) = bare piece := by
  unfold chopReturn
  split
  · rename_i h
    obtain ⟨front, rfl⟩ := List.getLast?_eq_some_iff.mp h
    simp
  · rfl

/-- What holds of a line whatever carriage return stands behind it holds of its bare line. -/
theorem eq_bare {γ : Type} (f : Line → γ) (h : ∀ line, f (line ++ ['\r']) = f line) (line : Line) :
    f (bare line) = f line := by
  induction line using List.reverseRecOn with
  | nil => rfl
  | append_singleton front c ih =>
    by_cases hc : c = '\r'
    · rw [hc, bare_return, ih, h]
    · rw [bare_concat _ hc]

/-- The lines of a text without the carriage returns at their ends. -/
def bareLines (text : Text) : List Line :=
  (lines text).map bare

theorem bareLines_eq (text : Text) : bareLines text = (text.splitOn '\n').map bare := by
  rw [bareLines, lines, List.map_map]
  apply List.map_congr_left
  intro piece _
  exact bare_chopReturn piece

@[simp] theorem bareLines_break (xs ys : Text) :
    bareLines (xs ++ '\n' :: ys) = bareLines xs ++ bareLines ys := by
  rw [bareLines_eq, List.splitOn_append_cons_self, List.map_append, bareLines_eq, bareLines_eq]

@[simp] theorem bareLines_return (text : Text) : bareLines (text ++ ['\r']) = bareLines text := by
  rw [bareLines_eq, bareLines_eq]
  induction text with
  | nil => decide
  | cons c rest ih =>
    rw [List.cons_append, List.splitOn_cons_eq_if_modifyHead, List.splitOn_cons_eq_if_modifyHead]
    by_cases hc : c = '\n'
    · simp [hc, ih]
    · obtain ⟨p, ps, hp⟩ :=
        List.exists_cons_of_ne_nil (List.splitOn_ne_nil '\n' (rest ++ ['\r']))
      obtain ⟨q, qs, hq⟩ := List.exists_cons_of_ne_nil (List.splitOn_ne_nil '\n' rest)
      rw [hp, hq, List.map_cons, List.map_cons, List.cons.injEq] at ih
      simp [hc, hp, hq, bare_cons, ih.1, ih.2]

@[simp] theorem bareLines_ending (ending : LineEnding) (xs ys : Text) :
    bareLines (xs ++ (ending.chars ++ ys)) = bareLines xs ++ bareLines ys := by
  cases ending with
  | lf => exact bareLines_break xs ys
  | crlf =>
    have h := bareLines_break (xs ++ ['\r']) ys
    rw [bareLines_return] at h
    simpa [LineEnding.chars] using h

theorem bareLines_of_not_mem {line : Line} (h : '\n' ∉ line) : bareLines line = [bare line] := by
  rw [bareLines_eq, List.splitOn_eq_singleton h, List.map_singleton]

theorem bareLines_intercalate {pieces : List Text} (hne : pieces ≠ []) :
    bareLines (['\n'].intercalate pieces) = pieces.flatMap bareLines := by
  induction pieces with
  | nil => contradiction
  | cons piece rest ih =>
    cases rest with
    | nil => simp
    | cons next more =>
      simp [ih]

@[simp] theorem afterComment_return (column : Nat) (line : Line) :
    afterComment column (line ++ ['\r']) =
      (afterComment column line).map fun after => (after.1, after.2 ++ ['\r']) := by
  fun_induction afterComment column line with
  | case1 => rfl
  | case2 column c => simp [afterComment]
  | case3 column c d rest h => simp [afterComment, h]
  | case4 column c d rest h ih => simpa [afterComment, h] using ih

/-- A carriage return behind a string that its line ends is part of the string. -/
theorem afterString_return (column : Nat) (line : Line) :
    afterString column (line ++ ['\r']) =
        ((afterString column line).1, (afterString column line).2 ++ ['\r']) ∨
      (afterString column line).2 = [] ∧ (afterString column (line ++ ['\r'])).2 = [] := by
  fun_induction afterString column line with
  | case1 => right; simp [afterString]
  | case2 column c =>
    by_cases hs : c = '\\'
    · right; simp [afterString, hs]
    by_cases hq : c = '"'
    · left; simp [afterString, hq]
    · right; simp [afterString, hs, hq]
  | case3 column d rest ih => simpa [afterString] using ih
  | case4 column d rest h => left; simp [afterString, h]
  | case5 column c d rest h h' ih => simpa [afterString, h, h'] using ih

@[simp] theorem begins_return (k : Keyword) (rest : Line) :
    k.begins (rest ++ ['\r']) = k.begins rest := by
  by_cases hw : k.width ≤ rest.length
  · rw [Keyword.begins, Keyword.begins, List.take_append_of_le_length hw,
      List.drop_append_of_le_length hw]
    have hreturn : isWordChar '\r' = false := by decide
    cases rest.drop k.width <;> simp [hreturn]
  · have hshort : k.begins rest = false :=
      Bool.eq_false_iff.mpr (fun h => hw (Keyword.width_le_of_begins h))
    rw [hshort, Bool.eq_false_iff]
    intro h
    simp only [Keyword.begins, Bool.and_eq_true, beq_iff_eq] at h
    have hmem : '\r' ∈ k.spelling := by
      rw [← h.1, List.take_of_length_le (by rw [List.length_append, List.length_singleton]; omega)]
      exact List.mem_map.mpr ⟨'\r', by simp, by decide⟩
    revert hmem
    cases k <;> decide

@[simp] theorem match?_return (before : Option Char) (rest : Line) :
    Keyword.match? before (rest ++ ['\r']) = Keyword.match? before rest := by
  simp only [Keyword.match?, begins_return]

@[simp] theorem opensComment_return (line : Line) :
    opensComment (line ++ ['\r']) = opensComment line := by
  cases line with
  | nil => rfl
  | cons c rest => cases rest <;> simp [opensComment]

@[simp] theorem scanCode_return (before : Option Char) (column : Nat) (rest : Line) :
    scanCode before column (rest ++ ['\r']) = scanCode before column rest := by
  induction before, column, rest using scanCode_induction with
  | nil before column =>
    have hnone : Keyword.match? before ([] ++ ['\r']) = none := by
      rw [match?_return, Keyword.match?_nil]
    rw [List.nil_append, scanCode_other rfl (by decide) hnone, scanCode_nil, scanCode_nil]
  | opened before column tail hnone =>
    have hnone' : afterComment (column + 2) (tail ++ ['\r']) = none := by
      rw [afterComment_return, hnone]
      rfl
    rw [List.cons_append, List.cons_append, scanCode_open hnone', scanCode_open hnone]
  | comment before column tail after hsome ih =>
    have hsome' : afterComment (column + 2) (tail ++ ['\r']) =
        some (after.1, after.2 ++ ['\r']) := by
      rw [afterComment_return, hsome]
      rfl
    rw [List.cons_append, List.cons_append, scanCode_comment hsome', scanCode_comment hsome, ih]
  | string before column tail ih =>
    rw [List.cons_append, scanCode_string, scanCode_string]
    rcases afterString_return (column + 1) tail with h | ⟨hnil, hnil'⟩
    · rw [h, ih]
    · rw [hnil, hnil', scanCode_nil, scanCode_nil]
  | keyword before column c tail k hopen hquote hk ih =>
    have hopen' := (opensComment_return (c :: tail)).trans hopen
    have hk' := (match?_return before (c :: tail)).trans hk
    have hw := Keyword.width_le_of_begins (Keyword.begins_of_match? hk)
    rw [List.cons_append] at hopen' hk' ⊢
    rw [scanCode_keyword hopen' hquote hk', scanCode_keyword hopen hquote hk, ← List.cons_append,
      List.take_append_of_le_length hw, List.drop_append_of_le_length hw, ih]
  | other before column c tail hopen hquote hk ih =>
    have hopen' := (opensComment_return (c :: tail)).trans hopen
    have hk' := (match?_return before (c :: tail)).trans hk
    rw [List.cons_append] at hopen' hk' ⊢
    rw [scanCode_other hopen' hquote hk', scanCode_other hopen hquote hk, ih]

@[simp] theorem scanLine_return (state : ScanState) (line : Line) :
    scanLine state (line ++ ['\r']) = scanLine state line := by
  unfold scanLine
  split
  · rw [afterComment_return]
    cases afterComment 0 line with
    | none => rfl
    | some after => exact scanCode_return _ _ _
  · exact scanCode_return _ _ _

@[simp] theorem scanLines_bare (state : ScanState) (first : Nat) (document : List Line) :
    scanLines state first (document.map bare) = scanLines state first document := by
  induction document generalizing state first with
  | nil => rfl
  | cons line below ih =>
    rw [List.map_cons, scanLines, eq_bare (scanLine state) (scanLine_return state), ih, scanLines]

/-- The keywords of a document are those of its bare lines. -/
theorem scan_eq_bareLines (text : Text) : scan text = (scanLines {} 0 (bareLines text)).1 := by
  simp [scan, bareLines]

@[simp] theorem lookAlong_return (rest : Line) : lookAlong (rest ++ ['\r']) = lookAlong rest := by
  fun_induction lookAlong rest with
  | case1 => rw [List.nil_append, lookAlong_blank rfl (by decide), lookAlong_nil]
  | case2 c tail hopen hnone =>
    obtain ⟨rest, hline⟩ := opensComment_iff.mp hopen
    cases hline
    rw [List.cons_append, List.cons_append]
    apply lookAlong_open
    rw [afterComment_return, show afterComment 0 rest = none from hnone]
    rfl
  | case3 c tail hopen after hsome ih =>
    obtain ⟨rest, hline⟩ := opensComment_iff.mp hopen
    cases hline
    rw [← ih, List.cons_append, List.cons_append]
    refine @lookAlong_comment _ (after.1, after.2 ++ ['\r']) ?_
    rw [afterComment_return, show afterComment 0 rest = some after from hsome]
    rfl
  | case4 c tail hopen hblank ih =>
    have hopen' := (opensComment_return (c :: tail)).trans (Bool.eq_false_iff.mpr hopen)
    rw [List.cons_append] at hopen' ⊢
    rw [lookAlong_blank hopen' hblank, ih]
  | case5 c tail hopen hblank =>
    have hopen' := (opensComment_return (c :: tail)).trans (Bool.eq_false_iff.mpr hopen)
    rw [List.cons_append] at hopen' ⊢
    rw [lookAlong_found hopen' (Bool.eq_false_iff.mpr hblank)]

@[simp] theorem lookAlongLine_return (inComment : Bool) (line : Line) :
    lookAlongLine inComment (line ++ ['\r']) = lookAlongLine inComment line := by
  unfold lookAlongLine
  split
  · rw [afterComment_return]
    cases afterComment 0 line with
    | none => rfl
    | some after => exact lookAlong_return _
  · exact lookAlong_return _

@[simp] theorem nextSignificant?_bare (inComment : Bool) (below : List Line) :
    nextSignificant? inComment (below.map bare) = nextSignificant? inComment below := by
  induction below generalizing inComment with
  | nil => rfl
  | cons line rest ih =>
    rw [List.map_cons, nextSignificant?,
      eq_bare (lookAlongLine inComment) (lookAlongLine_return inComment), nextSignificant?]
    simp only [ih]

@[simp] theorem judgeComma_return (enclosed : Bool) (below : List Line) (column : Nat)
    (after : Line) :
    judgeComma enclosed below column (after ++ ['\r']) = judgeComma enclosed below column after := by
  have hblank : isBlank '\r' = true := by decide
  unfold judgeComma
  cases hrest : after.dropWhile isBlank with
  | nil => rw [List.dropWhile_append, hrest]; simp [hblank]
  | cons c rest =>
    have hlen := congrArg List.length (List.takeWhile_append_dropWhile (p := isBlank) (l := after))
    rw [hrest, List.length_append, List.length_cons] at hlen
    have htake : (after ++ ['\r']).takeWhile isBlank = after.takeWhile isBlank := by
      rw [List.takeWhile_append, if_neg (by omega)]
    rw [List.dropWhile_append, hrest, htake]
    rfl

@[simp] theorem commaCode_return (below : List Line) (state : CommaState) (column : Nat)
    (rest : Line) :
    commaCode below state column (rest ++ ['\r']) = commaCode below state column rest := by
  induction state, column, rest using commaCode_induction with
  | nil state column =>
    rw [List.nil_append, commaCode_other rfl (by decide) (by decide), commaCode_nil, commaCode_nil]
    rfl
  | opened state column tail hnone =>
    have hnone' : afterComment (column + 2) (tail ++ ['\r']) = none := by
      rw [afterComment_return, hnone]
      rfl
    rw [List.cons_append, List.cons_append, commaCode_open hnone', commaCode_open hnone]
  | comment state column tail after hsome ih =>
    have hsome' : afterComment (column + 2) (tail ++ ['\r']) =
        some (after.1, after.2 ++ ['\r']) := by
      rw [afterComment_return, hsome]
      rfl
    rw [List.cons_append, List.cons_append, commaCode_comment hsome', commaCode_comment hsome, ih]
  | string state column tail ih =>
    rw [List.cons_append, commaCode_string, commaCode_string]
    rcases afterString_return (column + 1) tail with h | ⟨hnil, hnil'⟩
    · rw [h, ih]
    · rw [hnil, hnil', commaCode_nil, commaCode_nil]
  | comma state column tail ih =>
    rw [List.cons_append, commaCode_comma, commaCode_comma, judgeComma_return, ih]
  | other state column c tail hopen hquote hcomma ih =>
    have hopen' := (opensComment_return (c :: tail)).trans hopen
    rw [List.cons_append] at hopen' ⊢
    rw [commaCode_other hopen' hquote hcomma, commaCode_other hopen hquote hcomma, ih]

@[simp] theorem commaLine_bare (state : CommaState) (line : Line) (below : List Line) :
    commaLine state (bare line) (below.map bare) = commaLine state line below := by
  have hbelow : commaLine state line (below.map bare) = commaLine state line below := by
    have hcode : ∀ column rest, commaCode (below.map bare) state column rest =
        commaCode below state column rest :=
      fun _ _ => commaCode_congr (fun _ => nextSignificant?_bare false below)
    simp only [commaLine, hcode]
  rw [← hbelow]
  apply eq_bare (fun line => commaLine state line (below.map bare))
  intro line
  unfold commaLine
  split
  · rw [afterComment_return]
    cases afterComment 0 line with
    | none => rfl
    | some after => exact commaCode_return _ _ _ _
  · exact commaCode_return _ _ _ _

@[simp] theorem commaLines_bare (state : CommaState) (first : Nat) (document : List Line) :
    commaLines state first (document.map bare) = commaLines state first document := by
  induction document generalizing state first with
  | nil => rfl
  | cons line below ih => simp [commaLines, ih]

/-- The misplaced commas of a document are those of its bare lines. -/
theorem commaIssues_eq_bareLines (text : Text) :
    commaIssues text = (commaLines {} 0 (bareLines text)).1 := by
  simp [commaIssues, bareLines]

end CalcLint
