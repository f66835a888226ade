import CalcLint.Proofs.CodeModes
import CalcLint.Proofs.CommaLook

/-!
# What the passes take each character for

The keyword pass, the comma pass and the look-ahead each decide for themselves what is comment and
what is string. Both passes are given here with a mark for each character they go over; dropping the
marks gives the passes back. The machine that reads character by character marks the same characters
the same way, so the two passes agree, however far each of them leaps. The look-ahead does not skip
strings, and does not have to: it stops at the quote that opens one.
-/
namespace CalcLint

/-- What a character is taken for. The quote that opens a string is told from what follows it. -/
inductive Mark where
  | code
  | comment
  | quote
  | string
  deriving DecidableEq, Repr

/-- What the look-ahead does not skip: code and the quote that opens a string. -/
def Mark.isSignificant : Mark → Bool
  | .code => true
  | .quote => true
  | _ => false

/-- Characters that are all taken for the same. -/
def paint (mark : Mark) (chars : Line) : List (Char × Mark) :=
  chars.map (·, mark)

namespace Mode

/-- The mark of the first of some characters. A slash belongs to the comment that it opens with the
star behind it, and the star to the comment that it opens with the slash in front of it. -/
def mark (m : Mode) (rest : Line) : Mark :=
  match m with
  | .code =>
    if opensComment rest then .comment else if rest.head? = some '"' then .quote else .code
  | .slash =>
    if rest.head? = some '*' then .comment
    else if opensComment rest then .comment
    else if rest.head? = some '"' then .quote else .code
  | .comment => .comment
  | .star => .comment
  | .string => .string
  | .escape => .string

/-- The characters of a line with their marks. -/
def marked (m : Mode) : Line → List (Char × Mark)
  | [] => []
  | c :: rest => (c, m.mark (c :: rest)) :: (m.next c).marked rest

/-- The characters of a document with their marks, line by line. -/
def markedLines (m : Mode) : List Line → List (List (Char × Mark))
  | [] => []
  | line :: below => m.marked line :: (m.after line).atBreak.markedLines below

@[simp] theorem marked_nil (m : Mode) : m.marked [] = [] := rfl

@[simp] theorem map_fst_marked (m : Mode) (line : Line) : (m.marked line).map Prod.fst = line := by
  induction line generalizing m with
  | nil => rfl
  | cons c rest ih => rw [marked, List.map_cons, ih]

@[simp] theorem map_fst_markedLines (m : Mode) (document : List Line) :
    (m.markedLines document).map (·.map Prod.fst) = document := by
  induction document generalizing m with
  | nil => rfl
  | cons line below ih => rw [markedLines, List.map_cons, ih, map_fst_marked]

@[simp] theorem mark_of_atBreak {m : Mode} (h : m.atBreak = .comment) (rest : Line) :
    m.mark rest = .comment := by
  cases m <;> simp_all [atBreak, mark]

theorem mark_of_isAlpha {m : Mode} (hm : m.isCode = true) {c : Char} (hc : c.isAlpha = true)
    (rest : Line) : m.mark (c :: rest) = .code := by
  have h1 : c ≠ '/' := ne_of_class hc (by decide)
  have h2 : c ≠ '"' := ne_of_class hc (by decide)
  have h3 : c ≠ '*' := ne_of_class hc (by decide)
  cases m <;> simp_all [mark, isCode]

/-- A front whose characters all have one mark. -/
theorem marked_paint {m : Mode} {front rest : Line} {mark : Mark}
    (h : ∀ k < front.length, (m.after (front.take k)).mark ((front ++ rest).drop k) = mark) :
    m.marked (front ++ rest) = paint mark front ++ (m.after front).marked rest := by
  induction front generalizing m with
  | nil => rfl
  | cons c front ih =>
    have hfirst := h 0 (by simp)
    have hlater := @ih (m.next c) (fun k hk => h (k + 1) (by simpa using hk))
    simp only [List.take_zero, after_nil, List.drop_zero, List.cons_append] at hfirst
    rw [List.cons_append, marked, hfirst, hlater, after_cons]
    rfl

/-- As long as a string goes on, its characters are marked as such. -/
theorem mark_of_string {m : Mode} (hm : m = .string ∨ m = .escape) {front : Line}
    (h : ∀ k < front.length, (m.after (front.take k)).isCode = false) :
    ∀ k < front.length, ∀ rest, (m.after (front.take k)).mark rest = .string := by
  induction front generalizing m with
  | nil => simp
  | cons c front ih =>
    intro k hk rest
    cases k with
    | zero => rcases hm with rfl | rfl <;> rfl
    | succ k =>
      have hk' : k < front.length := by simpa using hk
      have hnext : m.next c = .string ∨ m.next c = .escape := by
        have hcode := h 1 (by simp only [List.length_cons]; omega)
        rw [List.take_succ_cons, List.take_zero, after_cons, after_nil] at hcode
        rcases hm with rfl | rfl
        · by_cases hslash : c = '\\'
          · simp [next, hslash]
          · by_cases hquote : c = '"' <;> simp_all [next, isCode]
        · simp [next]
      exact ih hnext (fun j hj => h (j + 1) (by simpa using hj)) k hk' rest

end Mode

section
variable {m : Mode} {c : Char} {tail : Line} {column : Nat}

@[simp] theorem Ready.mark_other (h : Ready m (c :: tail))
    (hopen : opensComment (c :: tail) = false)
    (hquote : c ≠ '"') : m.mark (c :: tail) = .code := by
  rcases h with rfl | ⟨rfl, hstar⟩
  · simp [Mode.mark, hopen, hquote]
  · have hc : c ≠ '*' := by simpa using hstar
    simp [Mode.mark, hopen, hquote, hc]

@[simp] theorem Ready.marked_other (h : Ready m (c :: tail))
    (hopen : opensComment (c :: tail) = false)
    (hquote : c ≠ '"') : m.marked (c :: tail) = (c, .code) :: (m.next c).marked tail := by
  rw [Mode.marked, h.mark_other hopen hquote]

/-- The marks of a comment: its two marks, and what stands between them. -/
theorem Ready.marked_mark (h : Ready m ('/' :: '*' :: tail)) :
    m.marked ('/' :: '*' :: tail) = paint .comment ['/', '*'] ++ Mode.comment.marked tail := by
  have hfirst : m.mark ('/' :: '*' :: tail) = .comment := by
    rcases h with rfl | ⟨rfl, _⟩ <;> simp [Mode.mark]
  rw [Mode.marked, hfirst, h.next, Mode.marked]
  rfl

theorem marked_comment_open {m : Mode} {rest : Line} (hm : InComment m rest)
    (hnone : afterComment column rest = none) : m.marked rest = paint .comment rest := by
  have hmodes := after_comment_open hm hnone
  have hpaint := @Mode.marked_paint m rest [] .comment
    (fun k _ => Mode.mark_of_atBreak (hmodes k) _)
  simpa using hpaint

theorem marked_comment_closed {m : Mode} {rest : Line} {after : Nat × Line} (hm : InComment m rest)
    (hsome : afterComment column rest = some after) :
    m.marked rest = paint .comment (rest.take (after.1 - column)) ++ Mode.code.marked after.2 := by
  obtain ⟨front, hrest, hcolumn, _, hcode, hmodes⟩ := after_comment_closed hm hsome
  have hpaint := @Mode.marked_paint m front after.2 .comment
    (fun k hk => Mode.mark_of_atBreak (hmodes k hk) _)
  have htake : rest.take (after.1 - column) = front := by
    rw [hcolumn, Nat.add_sub_cancel_left, hrest]
    exact List.take_left
  rw [hcode, ← hrest] at hpaint
  rw [hpaint, htake]

theorem Ready.marked_open (h : Ready m ('/' :: '*' :: tail))
    (hnone : afterComment column tail = none) :
    m.marked ('/' :: '*' :: tail) = paint .comment ('/' :: '*' :: tail) := by
  rw [h.marked_mark, marked_comment_open (Or.inl rfl) hnone]
  rfl

theorem Ready.marked_comment (h : Ready m ('/' :: '*' :: tail)) {after : Nat × Line}
    (hsome : afterComment (column + 2) tail = some after) :
    m.marked ('/' :: '*' :: tail) =
      paint .comment (('/' :: '*' :: tail).take (after.1 - column)) ++
        Mode.code.marked after.2 := by
  obtain ⟨k, _, rfl⟩ := afterComment_eq_drop hsome
  have hwidth : column + 2 + k - column = k + 2 := by omega
  rw [h.marked_mark, marked_comment_closed (Or.inl rfl) hsome]
  simp [hwidth, paint]

theorem Ready.marked_string (h : Ready m ('"' :: tail)) (column : Nat) :
    m.marked ('"' :: tail) =
      ('"', .quote) :: (paint .string (tail.take ((afterString column tail).1 - column)) ++
        Mode.code.marked (afterString column tail).2) := by
  obtain ⟨inner, htail, hcolumn, hmodes, hend⟩ := after_string column tail
  have hfirst : m.mark ('"' :: tail) = .quote := by
    rcases h with rfl | ⟨rfl, _⟩ <;> simp [Mode.mark]
  have hstring := Mode.mark_of_string (Or.inl rfl) hmodes
  have hpaint := @Mode.marked_paint .string inner (afterString column tail).2 .string
    (fun k hk => hstring k hk _)
  have hinner : tail.take ((afterString column tail).1 - column) = inner := by
    rw [hcolumn, Nat.add_sub_cancel_left]
    nth_rewrite 1 [htail]
    exact List.take_left
  -- A string that takes the rest of the line leaves nothing to mark in another mode.
  have hrest : (Mode.string.after inner).marked (afterString column tail).2 =
      Mode.code.marked (afterString column tail).2 := by
    rcases hend with ⟨hnil, _⟩ | ⟨hcode, _⟩
    · rw [hnil, Mode.marked_nil, Mode.marked_nil]
    · rw [hcode]
  rw [← htail, hrest] at hpaint
  rw [Mode.marked, hfirst, h.next, hinner]
  exact congrArg _ hpaint

theorem marked_letters (hm : m.isCode = true) {front : Line} (hne : front ≠ [])
    (hletters : ∀ c ∈ front, c.isAlpha = true) (rest : Line) :
    m.marked (front ++ rest) = paint .code front ++ Mode.code.marked rest := by
  induction front generalizing m with
  | nil => contradiction
  | cons c front ih =>
    have hc : c.isAlpha = true := hletters c List.mem_cons_self
    rw [List.cons_append, Mode.marked, Mode.mark_of_isAlpha hm hc, Mode.next_of_isAlpha hm hc]
    cases front with
    | nil => rfl
    | cons d front =>
      rw [ih rfl (by simp) (fun x hx => hletters x (List.mem_cons_of_mem c hx))]
      rfl

end

/-- The keyword pass over code, with a mark for each character it goes over. -/
def scanCodeMarked (before : Option Char) (column : Nat) (rest : Line) :
    List (Char × Mark) × (List Word × ScanState) :=
  match rest with
  | [] => ([], [], ⟨false⟩)
  | c :: tail =>
    if opensComment (c :: tail) then
      match _ : afterComment (column + 2) (tail.drop 1) with
      | none => (paint .comment (c :: tail), [], ⟨true⟩)
      | some after =>
        let found := scanCodeMarked (some '/') after.1 after.2
        (paint .comment ((c :: tail).take (after.1 - column)) ++ found.1, found.2)
    else if c = '"' then
      let after := afterString (column + 1) tail
      let found := scanCodeMarked (some '"') after.1 after.2
      ((c, .quote) :: (paint .string (tail.take (after.1 - (column + 1))) ++ found.1), found.2)
    else
      match Keyword.match? before (c :: tail) with
      | some k =>
        let lexeme := (c :: tail).take k.width
        let found := scanCodeMarked lexeme.getLast? (column + k.width) ((c :: tail).drop k.width)
        (paint .code lexeme ++ found.1, ⟨k, column, lexeme⟩ :: found.2.1, found.2.2)
      | none =>
        let found := scanCodeMarked (some c) (column + 1) tail
        ((c, .code) :: found.1, found.2)
termination_by rest.length
decreasing_by
  · have := afterComment_length ‹_›
    simp only [List.length_drop, List.length_cons] at *
    omega
  · have := afterString_length_le (column + 1) tail
    simp only [List.length_cons]
    omega
  · have := k.width_pos
    simp only [List.length_drop, List.length_cons]
    omega
  · simp

/-- The keyword pass over a line, with its marks. -/
def scanLineMarked (state : ScanState) (line : Line) :
    List (Char × Mark) × (List Word × ScanState) :=
  if state.inComment then
    match afterComment 0 line with
    | none => (paint .comment line, [], ⟨true⟩)
    | some after =>
      let found := scanCodeMarked (some '/') after.1 after.2
      (paint .comment (line.take after.1) ++ found.1, found.2)
  else scanCodeMarked none 0 line

/-- The comma pass over code, with a mark for each character it goes over. -/
def commaCodeMarked (below : List Line) (state : CommaState) (column : Nat) (rest : Line) :
    List (Char × Mark) × (List CommaSpot × CommaState) :=
  match rest with
  | [] => ([], [], { state with inComment := false })
  | c :: tail =>
    if opensComment (c :: tail) then
      match _ : afterComment (column + 2) (tail.drop 1) with
      | none => (paint .comment (c :: tail), [], { state with inComment := true })
      | some after =>
        let found := commaCodeMarked below state after.1 after.2
        (paint .comment ((c :: tail).take (after.1 - column)) ++ found.1, found.2)
    else if c = '"' then
      let after := afterString (column + 1) tail
      let found := commaCodeMarked below state after.1 after.2
      ((c, .quote) :: (paint .string (tail.take (after.1 - (column + 1))) ++ found.1), found.2)
    else if c = ',' then
      let found := commaCodeMarked below state (column + 1) tail
      match judgeComma (decide (0 < state.depth)) below column tail with
      | some spot => ((c, .code) :: found.1, spot :: found.2.1, found.2.2)
      | none => ((c, .code) :: found.1, found.2)
    else
      let found := commaCodeMarked below (state.step c) (column + 1) tail
      ((c, .code) :: found.1, found.2)
termination_by rest.length
decreasing_by
  · have := afterComment_length ‹_›
    simp only [List.length_drop, List.length_cons] at *
    omega
  · have := afterString_length_le (column + 1) tail
    simp only [List.length_cons]
    omega
  · simp
  · simp

/-- The comma pass over a line, with its marks. -/
def commaLineMarked (state : CommaState) (line : Line) (below : List Line) :
    List (Char × Mark) × (List CommaSpot × CommaState) :=
  if state.inComment then
    match afterComment 0 line with
    | none => (paint .comment line, [], state)
    | some after =>
      let found := commaCodeMarked below state after.1 after.2
      (paint .comment (line.take after.1) ++ found.1, found.2)
  else commaCodeMarked below state 0 line

/-- The keyword pass marks code as the machine does, and its marks change nothing else. -/
theorem scanCodeMarked_eq {m : Mode} {rest : Line} (hm : Ready m rest) (before : Option Char)
    (column : Nat) :
    scanCodeMarked before column rest = (m.marked rest, scanCode before column rest) := by
  fun_induction scanCodeMarked before column rest generalizing m with
  | case1 before column => rw [scanCode_nil, Mode.marked_nil]
  | case2 before column c tail hopen hnone =>
    obtain ⟨rest, hline⟩ := opensComment_iff.mp hopen
    cases hline
    replace hnone : afterComment (column + 2) rest = none := hnone
    rw [scanCode_open hnone, hm.marked_open hnone]
  | case3 before column c tail hopen after hsome found =>
    rename_i ih
    obtain ⟨rest, hline⟩ := opensComment_iff.mp hopen
    cases hline
    replace hsome : afterComment (column + 2) rest = some after := hsome
    have hfound : found = _ := ih (Or.inl rfl)
    rw [scanCode_comment hsome, hm.marked_comment hsome, hfound]
  | case4 before column tail after found hopen =>
    rename_i ih
    have hfound : found = _ := ih (Or.inl rfl)
    rw [scanCode_string, hm.marked_string (column + 1), hfound]
  | case5 before column c tail hopen hquote k hk lexeme found =>
    rename_i ih
    have hletters : ∀ x ∈ (c :: tail).take k.width, x.isAlpha = true :=
      fun x hx => Keyword.isAlpha_of_begins (Keyword.begins_of_match? hk) hx
    have hne : (c :: tail).take k.width ≠ [] := by
      simp [Nat.ne_of_gt k.width_pos]
    have hmarked := marked_letters hm.isCode hne hletters ((c :: tail).drop k.width)
    have hfound : found = _ := ih (Or.inl rfl)
    rw [List.take_append_drop] at hmarked
    rw [scanCode_keyword (Bool.eq_false_iff.mpr hopen) hquote hk, hmarked, hfound]
  | case6 before column c tail hopen hquote hk found =>
    rename_i ih
    have hclosed := Bool.eq_false_iff.mpr hopen
    have hfound : found = _ := ih (hm.step hclosed hquote)
    rw [scanCode_other hclosed hquote hk, hm.marked_other hclosed hquote, hfound]

/-- The comma pass marks code as the machine does, and its marks change nothing else. -/
theorem commaCodeMarked_eq {m : Mode} {rest : Line} (hm : Ready m rest) (below : List Line)
    (state : CommaState) (column : Nat) :
    commaCodeMarked below state column rest =
      (m.marked rest, commaCode below state column rest) := by
  fun_induction commaCodeMarked below state column rest generalizing m with
  | case1 state column => rw [commaCode_nil, Mode.marked_nil]
  | case2 state column c tail hopen hnone =>
    obtain ⟨rest, hline⟩ := opensComment_iff.mp hopen
    cases hline
    replace hnone : afterComment (column + 2) rest = none := hnone
    rw [commaCode_open hnone, hm.marked_open hnone]
  | case3 state column c tail hopen after hsome found =>
    rename_i ih
    obtain ⟨rest, hline⟩ := opensComment_iff.mp hopen
    cases hline
    replace hsome : afterComment (column + 2) rest = some after := hsome
    have hfound : found = _ := ih (Or.inl rfl)
    rw [commaCode_comment hsome, hm.marked_comment hsome, hfound]
  | case4 state column tail after found hopen =>
    rename_i ih
    have hfound : found = _ := ih (Or.inl rfl)
    rw [commaCode_string, hm.marked_string (column + 1), hfound]
  | case5 state column tail found spot hspot hopen hquote =>
    rename_i ih
    have hclosed := Bool.eq_false_iff.mpr hopen
    have hfound : found = _ := ih (hm.step hclosed hquote)
    rw [commaCode_comma, hm.marked_other hclosed hquote, hfound, hspot]
    rfl
  | case6 state column tail found hspot hopen hquote =>
    rename_i ih
    have hclosed := Bool.eq_false_iff.mpr hopen
    have hfound : found = _ := ih (hm.step hclosed hquote)
    rw [commaCode_comma, hm.marked_other hclosed hquote, hfound, hspot]
    rfl
  | case7 state column c tail hopen hquote hcomma found =>
    rename_i ih
    have hclosed := Bool.eq_false_iff.mpr hopen
    have hfound : found = _ := ih (hm.step hclosed hquote)
    rw [commaCode_other hclosed hquote hcomma, hm.marked_other hclosed hquote, hfound]

@[simp] theorem scanLineMarked_eq (state : ScanState) (line : Line) :
    scanLineMarked state line = (state.mode.marked line, scanLine state line) := by
  unfold scanLineMarked scanLine ScanState.mode
  by_cases hopen : state.inComment = true
  · simp only [if_pos hopen]
    cases hafter : afterComment 0 line with
    | none => rw [marked_comment_open (Or.inl rfl) hafter]
    | some after =>
      rw [marked_comment_closed (Or.inl rfl) hafter, Nat.sub_zero]
      simp only [scanCodeMarked_eq (Or.inl rfl)]
  · simp only [if_neg hopen]
    exact scanCodeMarked_eq (Or.inl rfl) none 0

@[simp] theorem commaLineMarked_eq (state : CommaState) (line : Line) (below : List Line) :
    commaLineMarked state line below =
      ((ScanState.mode ⟨state.inComment⟩).marked line, commaLine state line below) := by
  unfold commaLineMarked commaLine ScanState.mode
  by_cases hopen : state.inComment = true
  · simp only [if_pos hopen]
    cases hafter : afterComment 0 line with
    | none => rw [marked_comment_open (Or.inl rfl) hafter]
    | some after =>
      rw [marked_comment_closed (Or.inl rfl) hafter, Nat.sub_zero]
      simp only [commaCodeMarked_eq (Or.inl rfl)]
  · simp only [if_neg hopen]
    exact commaCodeMarked_eq (Or.inl rfl) below state 0

/-- The state of the keyword pass behind the first `k` lines. -/
def scanStateAt (state : ScanState) : List Line → Nat → ScanState
  | line :: below, k + 1 => scanStateAt (scanLine state line).2 below k
  | _, _ => state

/-- The state of the comma pass behind the first `k` lines. -/
def commaStateAt (state : CommaState) : List Line → Nat → CommaState
  | line :: below, k + 1 => commaStateAt (commaLine state line below).2 below k
  | _, _ => state

/-- What the keyword pass takes the characters of a document for, line by line. -/
def scanMarkedLines (state : ScanState) : List Line → List (List (Char × Mark))
  | [] => []
  | line :: below => (scanLineMarked state line).1 :: scanMarkedLines (scanLine state line).2 below

/-- What the comma pass takes the characters of a document for, line by line. -/
def commaMarkedLines (state : CommaState) : List Line → List (List (Char × Mark))
  | [] => []
  | line :: below =>
    (commaLineMarked state line below).1 :: commaMarkedLines (commaLine state line below).2 below

@[simp] theorem scanStateAt_inComment (state : CommaState) (document : List Line) (k : Nat) :
    (scanStateAt ⟨state.inComment⟩ document k).inComment =
      (commaStateAt state document k).inComment := by
  induction document generalizing state k with
  | nil => rfl
  | cons line below ih =>
    cases k with
    | zero => rfl
    | succ k =>
      rw [scanStateAt, commaStateAt, ← ih, commaLine_inComment]

@[simp] theorem mode_scanLine (state : ScanState) (line : Line) :
    (scanLine state line).2.mode = (state.mode.after line).atBreak :=
  (scanLine_scanned state line).mode.symm

@[simp] theorem mode_commaLine (state : CommaState) (line : Line) (below : List Line) :
    ScanState.mode ⟨(commaLine state line below).2.inComment⟩ =
      ((ScanState.mode ⟨state.inComment⟩).after line).atBreak := by
  rw [commaLine_inComment, mode_scanLine]

@[simp] theorem scanMarkedLines_eq (state : ScanState) (document : List Line) :
    scanMarkedLines state document = state.mode.markedLines document := by
  induction document generalizing state with
  | nil => rfl
  | cons line below ih =>
    rw [scanMarkedLines, scanLineMarked_eq, ih, mode_scanLine, Mode.markedLines]

@[simp] theorem commaMarkedLines_eq (state : CommaState) (document : List Line) :
    commaMarkedLines state document = (ScanState.mode ⟨state.inComment⟩).markedLines document := by
  induction document generalizing state with
  | nil => rfl
  | cons line below ih =>
    rw [commaMarkedLines, commaLineMarked_eq, ih, mode_commaLine, Mode.markedLines]

theorem scanMarkedLines_drop (state : ScanState) (document : List Line) (k : Nat) :
    (scanMarkedLines state document).drop k =
      scanMarkedLines (scanStateAt state document k) (document.drop k) := by
  induction document generalizing state k with
  | nil => simp [Mode.markedLines]
  | cons line below ih =>
    cases k with
    | zero => rfl
    | succ k => exact ih _ k

/-- Whether the look-ahead stops at a character. -/
def isSeen (x : Char × Mark) : Bool :=
  x.2.isSignificant && !isBlank x.1

/-- What a look along marked characters finds, where `m` is the mode behind them. -/
def outlook (m : Mode) (row : List (Char × Mark)) : Outlook :=
  match row.find? isSeen with
  | some x => .found x.1
  | none => .nothing (decide (m.atBreak = .comment))

@[simp] theorem find?_isSeen_paint (chars : Line) (row : List (Char × Mark)) :
    (paint .comment chars ++ row).find? isSeen = row.find? isSeen := by
  rw [List.find?_append, List.find?_eq_none.mpr, Option.none_or]
  intro x hx
  obtain ⟨c, _, rfl⟩ := List.mem_map.mp hx
  simp [isSeen, Mark.isSignificant]

theorem outlook_open {column : Nat} {rest : Line} (hnone : afterComment column rest = none) :
    outlook (Mode.comment.after rest) (Mode.comment.marked rest) = .nothing true := by
  have hend := after_comment_open (Or.inl rfl) hnone rest.length
  have hnothing := find?_isSeen_paint rest []
  rw [List.take_length] at hend
  rw [List.append_nil, List.find?_nil] at hnothing
  rw [outlook, marked_comment_open (Or.inl rfl) hnone, hnothing, hend]
  rfl

theorem outlook_closed {column : Nat} {rest : Line} {after : Nat × Line}
    (hsome : afterComment column rest = some after) :
    outlook (Mode.comment.after rest) (Mode.comment.marked rest) =
      outlook (Mode.code.after after.2) (Mode.code.marked after.2) := by
  obtain ⟨front, hrest, _, _, hcode, _⟩ := after_comment_closed (Or.inl rfl) hsome
  have hmode : Mode.comment.after rest = Mode.code.after after.2 := by
    rw [hrest, Mode.after_append, hcode]
  rw [outlook, outlook, marked_comment_closed (Or.inl rfl) hsome, find?_isSeen_paint, hmode]

theorem Ready.outlook_mark {m : Mode} {tail : Line} (h : Ready m ('/' :: '*' :: tail)) :
    outlook (m.after ('/' :: '*' :: tail)) (m.marked ('/' :: '*' :: tail)) =
      outlook (Mode.comment.after tail) (Mode.comment.marked tail) := by
  rw [outlook, outlook, h.marked_mark, find?_isSeen_paint, h.after_mark]

theorem lookAlong_eq {m : Mode} {rest : Line} (hm : Ready m rest) :
    lookAlong rest = outlook (m.after rest) (m.marked rest) := by
  fun_induction lookAlong rest generalizing m with
  | case1 => rcases hm with rfl | ⟨rfl, _⟩ <;> rfl
  | case2 c tail hopen hnone =>
    obtain ⟨rest, hline⟩ := opensComment_iff.mp hopen
    cases hline
    exact (hm.outlook_mark.trans (outlook_open hnone)).symm
  | case3 c tail hopen after hsome ih =>
    obtain ⟨rest, hline⟩ := opensComment_iff.mp hopen
    cases hline
    exact (ih (Or.inl rfl)).trans (hm.outlook_mark.trans (outlook_closed hsome)).symm
  | case4 c tail hopen hblank ih =>
    have hclosed := Bool.eq_false_iff.mpr hopen
    have hquote : c ≠ '"' := ne_of_class hblank (by decide)
    rw [ih (hm.step hclosed hquote), outlook, outlook, hm.marked_other hclosed hquote,
      List.find?_cons_of_neg (by simp [isSeen, hblank])]
    rfl
  | case5 c tail hopen hblank =>
    have hclosed := Bool.eq_false_iff.mpr hopen
    by_cases hquote : c = '"'
    · subst hquote
      rw [outlook, hm.marked_string 0, List.find?_cons_of_pos (by decide)]
    · rw [outlook, hm.marked_other hclosed hquote,
        List.find?_cons_of_pos (by simp [isSeen, Mark.isSignificant, hblank])]

theorem lookAlongLine_eq (state : ScanState) (line : Line) :
    lookAlongLine state.inComment line =
      outlook (state.mode.after line) (state.mode.marked line) := by
  unfold lookAlongLine ScanState.mode
  by_cases hopen : state.inComment = true
  · simp only [if_pos hopen]
    cases hafter : afterComment 0 line with
    | none => exact (outlook_open hafter).symm
    | some after => exact (lookAlong_eq (Or.inl rfl)).trans (outlook_closed hafter).symm
  · simp only [if_neg hopen]
    exact lookAlong_eq (Or.inl rfl)

/-- The look-ahead finds the first character that is neither blank nor comment nor in a string. -/
theorem nextSignificant?_eq (state : ScanState) (document : List Line) :
    nextSignificant? state.inComment document =
      ((state.mode.markedLines document).flatten.find? isSeen).map Prod.fst := by
  induction document generalizing state with
  | nil => rfl
  | cons line below ih =>
    rw [nextSignificant?, lookAlongLine_eq, outlook, Mode.markedLines, List.flatten_cons,
      List.find?_append]
    cases (state.mode.marked line).find? isSeen with
    | some x => rfl
    | none =>
      have hmode : ScanState.mode ⟨decide ((state.mode.after line).atBreak = .comment)⟩ =
          (state.mode.after line).atBreak := by
        rw [← mode_scanLine]
        cases (scanLine state line).2 with
        | mk inComment => cases inComment <;> rfl
      have hbelow := ih ⟨decide ((state.mode.after line).atBreak = .comment)⟩
      rw [hmode] at hbelow
      rw [Option.none_or]
      exact hbelow

/-- The keyword pass, the comma pass and the look-ahead agree on what is comment and what is string,
from whatever state they start. The marked passes are the passes themselves; both passes hold the
same comments open at every line end and take every character for the same; and the look-ahead from
any line end finds the first character there that is not blank and that the passes take for code or
for the quote that opens a string. -/
theorem passes_agree (document : List Line) (state : CommaState) :
    (∀ s line, (scanLineMarked s line).2 = scanLine s line) ∧
    (∀ s line below, (commaLineMarked s line below).2 = commaLine s line below) ∧
    (∀ k, (scanStateAt ⟨state.inComment⟩ document k).inComment =
      (commaStateAt state document k).inComment) ∧
    scanMarkedLines ⟨state.inComment⟩ document = commaMarkedLines state document ∧
    (scanMarkedLines ⟨state.inComment⟩ document).map (·.map Prod.fst) = document ∧
    ∀ k, nextSignificant? (scanStateAt ⟨state.inComment⟩ document k).inComment (document.drop k) =
      (((scanMarkedLines ⟨state.inComment⟩ document).drop k).flatten.find? isSeen).map
        Prod.fst := by
  refine ⟨?_, ?_, scanStateAt_inComment state document, ?_, ?_, ?_⟩
  · intro s line
    rw [scanLineMarked_eq]
  · intro s line below
    rw [commaLineMarked_eq]
  · rw [scanMarkedLines_eq, commaMarkedLines_eq]
  · rw [scanMarkedLines_eq, Mode.map_fst_markedLines]
  · intro k
    rw [scanMarkedLines_drop, scanMarkedLines_eq, nextSignificant?_eq]

end CalcLint
