import CalcLint.Proofs.ClosingRows

/-!
# Texts line break by line break

Bare lines forget how a text ends its lines. Here nothing is forgotten: once its last line is ended
too, a text is the concatenation of its whole lines, each with its line feed, and it is given back
by them. In a text whose last line does not end in a carriage return the closing edits only add
whole lines, also below the last line, where the new line break comes first.
-/
namespace CalcLint

/-- The lines of a text that ends in a line feed, each with its line feed. -/
def wholeLines (text : Text) : List Line :=
  (text.splitOn '\n').dropLast.map (· ++ ['\n'])

/-- A line with the line feed that ends it, and no other. -/
def IsWhole (line : Line) : Prop :=
  ∃ body, line = body ++ ['\n'] ∧ '\n' ∉ body

@[simp] theorem wholeLines_flatten {whole : List Line} (h : ∀ w ∈ whole, IsWhole w) :
    wholeLines whole.flatten = whole := by
  induction whole with
  | nil => simp [wholeLines]
  | cons w rest ih =>
    obtain ⟨body, rfl, hbody⟩ := h w List.mem_cons_self
    have hrest := ih (fun x hx => h x (List.mem_cons_of_mem _ hx))
    rw [wholeLines] at hrest ⊢
    rw [List.flatten_cons, List.append_assoc, List.singleton_append,
      List.splitOn_append_cons_self, List.splitOn_eq_singleton hbody, List.singleton_append,
      List.dropLast_cons_of_ne_nil (List.splitOn_ne_nil '\n' _), List.map_cons, hrest]

theorem flatten_map_break {pieces : List Text} (hne : pieces ≠ []) :
    (pieces.map (· ++ ['\n'])).flatten = ['\n'].intercalate pieces ++ ['\n'] := by
  induction pieces with
  | nil => contradiction
  | cons piece rest ih =>
    cases rest with
    | nil => simp
    | cons next more =>
      rw [List.map_cons, List.flatten_cons, ih (by simp), List.intercalate_cons_cons]
      simp

theorem wholeLines_break (text : Text) :
    wholeLines (text ++ ['\n']) = (text.splitOn '\n').map (· ++ ['\n']) := by
  rw [wholeLines, List.splitOn_append_cons_self, List.splitOn_nil, List.dropLast_concat]

@[simp] theorem flatten_wholeLines (ending : LineEnding) (text : Text) :
    (wholeLines (text ++ ending.chars)).flatten = text ++ ending.chars := by
  have hbreak : ∀ front : Text, (wholeLines (front ++ ['\n'])).flatten = front ++ ['\n'] := by
    intro front
    rw [wholeLines_break, flatten_map_break (List.splitOn_ne_nil '\n' front),
      List.intercalate_splitOn]
  cases ending with
  | lf => exact hbreak text
  | crlf => simpa [LineEnding.chars] using hbreak (text ++ ['\r'])

theorem isWhole_of_mem_wholeLines {text : Text} {w : Line} (h : w ∈ wholeLines text) :
    IsWhole w := by
  obtain ⟨piece, hpiece, rfl⟩ := List.mem_map.mp h
  exact ⟨piece, rfl, newline_not_mem_of_mem_splitOn (List.dropLast_sublist _ |>.subset hpiece)⟩

/-- A text is known by its whole lines. -/
theorem eq_of_wholeLines_eq {ending : LineEnding} {text text' : Text}
    (h : wholeLines (text ++ ending.chars) = wholeLines (text' ++ ending.chars)) : text = text' := by
  have hflat := congrArg List.flatten h
  rw [flatten_wholeLines, flatten_wholeLines] at hflat
  exact List.append_cancel_right hflat

/-- A line with any line break behind it. -/
theorem isWhole_ending {line : Line} (h : '\n' ∉ line) (ending : LineEnding) :
    IsWhole (line ++ ending.chars) := by
  cases ending with
  | lf => exact ⟨line, rfl, h⟩
  | crlf => exact ⟨line ++ ['\r'], by simp [LineEnding.chars], by simp [h]⟩

/-- Pieces between line feeds, with the line feeds, and with a line break of its own behind the last
one. -/
def endPieces (ending : LineEnding) : List Text → List Line
  | [] => []
  | [last] => [last ++ ending.chars]
  | piece :: next :: rest => (piece ++ ['\n']) :: endPieces ending (next :: rest)

theorem flatten_endPieces (ending : LineEnding) {pieces : List Text} (hne : pieces ≠ []) :
    (endPieces ending pieces).flatten = ['\n'].intercalate pieces ++ ending.chars := by
  fun_induction endPieces ending pieces with
  | case1 => contradiction
  | case2 last => simp
  | case3 piece next rest ih =>
    rw [List.flatten_cons, ih (by simp), List.intercalate_cons_cons]
    simp

theorem isWhole_of_mem_endPieces {ending : LineEnding} {pieces : List Text}
    (hclean : ∀ p ∈ pieces, '\n' ∉ p) {w : Line} (h : w ∈ endPieces ending pieces) : IsWhole w := by
  fun_induction endPieces ending pieces with
  | case1 => contradiction
  | case2 last =>
    rw [List.mem_singleton] at h
    rw [h]
    exact isWhole_ending (hclean last List.mem_cons_self) ending
  | case3 piece next rest ih =>
    rcases List.mem_cons.mp h with rfl | h
    · exact ⟨piece, rfl, hclean piece List.mem_cons_self⟩
    · exact ih (fun p hp => hclean p (List.mem_cons_of_mem _ hp)) h

theorem wholeLines_eq_endPieces (ending : LineEnding) (text : Text) :
    wholeLines (text ++ ending.chars) = endPieces ending (text.splitOn '\n') := by
  have hflat := flatten_endPieces ending (List.splitOn_ne_nil '\n' text)
  rw [List.intercalate_splitOn] at hflat
  rw [← hflat]
  apply wholeLines_flatten
  intro w hw
  exact isWhole_of_mem_endPieces (fun p hp => newline_not_mem_of_mem_splitOn hp) hw

@[simp] theorem chopReturn_return (line : Line) : chopReturn (line ++ ['\r']) = line := by
  simp [chopReturn]

@[simp] theorem chopReturn_of_ne {line : Line} (h : line.getLast? ≠ some '\r') :
    chopReturn line = line :=
  if_neg h

/-- The line of a whole line. -/
def lineOf (whole : Line) : Line :=
  chopReturn whole.dropLast

@[simp] theorem lineOf_ending {line : Line} (h : line.getLast? ≠ some '\r') (ending : LineEnding) :
    lineOf (line ++ ending.chars) = line := by
  cases ending with
  | lf =>
    show chopReturn (line ++ ['\n']).dropLast = line
    rw [List.dropLast_concat, chopReturn_of_ne h]
  | crlf =>
    have hdrop : (line ++ ['\r', '\n']).dropLast = line ++ ['\r'] := by
      rw [List.append_cons line '\r' ['\n'], List.dropLast_concat]
    show chopReturn (line ++ ['\r', '\n']).dropLast = line
    rw [hdrop, chopReturn_return]

theorem map_lineOf_endPieces (ending : LineEnding) {pieces : List Text}
    (hlast : ∀ last, pieces.getLast? = some last → last.getLast? ≠ some '\r') :
    (endPieces ending pieces).map lineOf = pieces.map chopReturn := by
  fun_induction endPieces ending pieces with
  | case1 => rfl
  | case2 last =>
    have hne := hlast last rfl
    rw [List.map_singleton, List.map_singleton, lineOf_ending hne, chopReturn_of_ne hne]
  | case3 piece next rest ih =>
    have hline : lineOf (piece ++ ['\n']) = chopReturn piece := by
      rw [lineOf, List.dropLast_concat]
    rw [List.map_cons, List.map_cons, hline, ih (fun last h => hlast last (by simpa using h))]

/-- A text that does not end in a carriage return has no piece at its end that does. -/
theorem getLast?_of_last_piece {text last : Text} (h : text.getLast? ≠ some '\r')
    (hlast : (text.splitOn '\n').getLast? = some last) : last.getLast? ≠ some '\r' := by
  obtain ⟨front, hfront⟩ := List.getLast?_eq_some_iff.mp hlast
  have hflat := flatten_map_break (List.splitOn_ne_nil '\n' text)
  rw [List.intercalate_splitOn, hfront, List.map_append, List.map_singleton, List.flatten_append,
    List.flatten_singleton, ← List.append_assoc] at hflat
  have htext : (front.map (· ++ ['\n'])).flatten ++ last = text := List.append_cancel_right hflat
  intro hreturn
  apply h
  obtain ⟨body, rfl⟩ := List.getLast?_eq_some_iff.mp hreturn
  rw [← htext, ← List.append_assoc, List.getLast?_concat]

/-- In a text that does not end in a carriage return every whole line is a line and its break. -/
theorem lines_eq_wholeLines (ending : LineEnding) {text : Text} (h : text.getLast? ≠ some '\r') :
    lines text = (wholeLines (text ++ ending.chars)).map lineOf := by
  rw [wholeLines_eq_endPieces,
    map_lineOf_endPieces ending (fun last hlast => getLast?_of_last_piece h hlast), lines]

theorem mem_withRows {rows : Nat → List Line} {number : Nat} {document : List Line} {line : Line}
    (h : line ∈ withRows rows number document) : line ∈ document ∨ ∃ n, line ∈ rows n := by
  induction document generalizing number with
  | nil => contradiction
  | cons first below ih =>
    rw [withRows, List.mem_cons, List.mem_append] at h
    rcases h with rfl | h | h
    · exact Or.inl List.mem_cons_self
    · exact Or.inr ⟨number, h⟩
    · exact (ih h).imp_left (List.mem_cons_of_mem first)

theorem map_withRows (f : Line → Line) (rows : Nat → List Line) (number : Nat)
    (document : List Line) :
    (withRows rows number document).map f =
      withRows (fun n => (rows n).map f) number (document.map f) := by
  induction document generalizing number with
  | nil => rfl
  | cons line below ih => rw [withRows, List.map_cons, List.map_append, ih, List.map_cons, withRows]

theorem withRows_congr {rows rows' : Nat → List Line} {number : Nat} {document : List Line}
    (h : ∀ n, number ≤ n → n < number + document.length → rows n = rows' n) :
    withRows rows number document = withRows rows' number document := by
  induction document generalizing number with
  | nil => rfl
  | cons line below ih =>
    rw [List.length_cons] at h
    rw [withRows, withRows, h number (Nat.le_refl _) (by omega),
      ih (fun n hlo hhi => h n (by omega) (by omega))]

@[simp] theorem withRows_nil (number : Nat) (document : List Line) :
    withRows (fun _ => []) number document = document := by
  induction document generalizing number with
  | nil => rfl
  | cons line below ih => rw [withRows, ih, List.nil_append]

/-- Rows below one line only. -/
theorem withRows_at {rows : Nat → List Line} {number k : Nat} {document : List Line}
    (h : ∀ n, n ≠ number + k → rows n = []) (hk : k < document.length) :
    withRows rows number document =
      document.take (k + 1) ++ (rows (number + k) ++ document.drop (k + 1)) := by
  induction document generalizing number k with
  | nil => contradiction
  | cons line below ih =>
    rw [withRows, List.take_succ_cons, List.drop_succ_cons, List.cons_append]
    cases k with
    | zero =>
      rw [withRows_congr (fun n hn _ => h n (by omega)), withRows_nil, Nat.add_zero, List.take_zero,
        List.nil_append, List.drop_zero]
    | succ k =>
      have hnext : number + (k + 1) = number + 1 + k := by omega
      have hrest := @ih (number + 1) k (fun n hn => h n (by omega)) (by simpa using hk)
      rw [h number (by omega), List.nil_append, hnext, hrest]

/-- Rows may be put in one after the other, the lower ones first. -/
theorem withRows_withRows {upper lower : Nat → List Line}
    (h : ∀ i j, i < j → lower i = [] ∨ upper j = []) (number : Nat) (document : List Line) :
    withRows upper number (withRows lower number document) =
      withRows (fun n => upper n ++ lower n) number document := by
  induction document generalizing number with
  | nil => rfl
  | cons line below ih =>
    rw [withRows, withRows, withRows, List.append_assoc]
    by_cases hlower : lower number = []
    · rw [hlower, List.nil_append, List.nil_append, ih]
    · -- Below the first rows of `lower` there are none of `upper`.
      have hnone : ∀ n, number + 1 ≤ n → upper n = [] :=
        fun n hn => (h number n (by omega)).resolve_left hlower
      have hupper : ∀ document, withRows upper (number + 1) document = document := by
        intro document
        rw [withRows_congr (fun n hn _ => hnone n hn), withRows_nil]
      rw [hupper, withRows_congr (fun n hn _ => ?_)]
      rw [hnone n hn, List.nil_append]

theorem getLast?_row (text : Text) (m : Mending) : (m.row text).getLast? ≠ some '\r' := by
  rw [Mending.row, List.getLast?_append]
  cases m.closer <;> simp [Keyword.spelling]

/-- A line break in front of each row and one behind them, or one in front of them and one behind
each. -/
theorem flatMap_rotate (ending : Text) (rows : List Line) :
    rows.flatMap (ending ++ ·) ++ ending = ending ++ rows.flatMap (· ++ ending) := by
  induction rows with
  | nil => simp
  | cons row more ih =>
    rw [List.flatMap_cons, List.append_assoc, ih, List.flatMap_cons]
    simp

theorem intercalate_withRows (rows : Nat → List Line) (ending : LineEnding) (total : Nat)
    {pieces : List Text} (hne : pieces ≠ []) {number : Nat}
    (htotal : number + pieces.length = total) :
    ['\n'].intercalate ((pieces.zipIdx number).map fun entry =>
        (if entry.2 = 0 then [] else (rows (entry.2 - 1)).flatMap (· ++ ending.chars)) ++
          (entry.1 ++ if entry.2 + 1 = total then
            (rows entry.2).flatMap (ending.chars ++ ·) else [])) ++ ending.chars =
      (if number = 0 then [] else (rows (number - 1)).flatMap (· ++ ending.chars)) ++
        (withRows (fun n => (rows n).map (· ++ ending.chars)) number
          (endPieces ending pieces)).flatten := by
  induction pieces generalizing number with
  | nil => contradiction
  | cons piece rest ih =>
    have hrows : ∀ n, ((rows n).map (· ++ ending.chars)).flatten =
        (rows n).flatMap (· ++ ending.chars) := fun n => List.flatMap_def.symm
    cases rest with
    | nil =>
      have hlast : number + 1 = total := htotal
      rw [List.zipIdx_cons, List.zipIdx_nil, List.map_singleton, List.intercalate_singleton,
        if_pos hlast, List.append_assoc, List.append_assoc, flatMap_rotate, endPieces, withRows,
        withRows, List.flatten_cons, List.append_nil, hrows, List.append_assoc]
    | cons next more =>
      have hinner : ¬ number + 1 = total := by simp only [List.length_cons] at htotal; omega
      have hrest := @ih (by simp) (number + 1) (by simp only [List.length_cons] at *; omega)
      rw [List.zipIdx_cons, List.map_cons] at hrest
      rw [List.zipIdx_cons, List.map_cons, List.zipIdx_cons, List.map_cons,
        List.intercalate_cons_cons, List.append_assoc, List.append_assoc, hrest, if_neg hinner,
        endPieces, withRows, List.flatten_cons, List.flatten_append, hrows]
      simp

theorem spread_piece_exact {text piece : Text} {mendings : List Mending}
    (h : ∀ m ∈ mendings, m.Placed text) (hend : text.getLast? ≠ some '\r') {number : Nat}
    (hpiece : (text.splitOn '\n')[number]? = some piece) :
    spread (insertedOn (mendings.map (Mending.edit text)) number) 0 piece =
      (if number = 0 then [] else (rowsBelow text mendings (number - 1)).flatMap
          (· ++ (LineEnding.ofText text).chars)) ++
        (piece ++ if number + 1 = (text.splitOn '\n').length then
          (rowsBelow text mendings number).flatMap ((LineEnding.ofText text).chars ++ ·) else []) := by
  have hlen : (lines text).length = (text.splitOn '\n').length := by simp [lines]
  have habove : (mendings.filter (·.opener + 1 = number)).flatMap
      (fun m => m.row text ++ (LineEnding.ofText text).chars) =
        if number = 0 then [] else (rowsBelow text mendings (number - 1)).flatMap
          (· ++ (LineEnding.ofText text).chars) := by
    cases number with
    | zero => simp
    | succ number => simp [rowsBelow, List.flatMap_map]
  obtain ⟨back, hback, _⟩ := chopReturn_append piece
  rw [spread_piece h hpiece hback, habove, lastMendings, hlen]
  congr 1
  by_cases hlast : number + 1 = (text.splitOn '\n').length
  · have hchop : chopReturn piece = piece := by
      apply chopReturn_of_ne
      apply getLast?_of_last_piece hend
      rw [List.getLast?_eq_getElem?, ← hlast]
      exact hpiece
    rw [hchop] at hback ⊢
    rw [List.self_eq_append_right.mp hback, if_pos hlast, if_pos hlast, List.append_nil, rowsBelow,
      List.flatMap_map]
  · rw [if_neg hlast, if_neg hlast, List.flatMap_nil, List.nil_append, List.append_nil, ← hback]

/-- Closing edits put the rows meant for a line below it as whole lines, and change nothing else. -/
theorem wholeLines_applyEdits {text : Text} {mendings : List Mending}
    (h : ∀ m ∈ mendings, m.Placed text) (hend : text.getLast? ≠ some '\r') :
    wholeLines (applyEdits text (mendings.map (Mending.edit text)) ++
        (LineEnding.ofText text).chars) =
      withRows (fun n => (rowsBelow text mendings n).map (· ++ (LineEnding.ofText text).chars)) 0
        (wholeLines (text ++ (LineEnding.ofText text).chars)) := by
  have hpieces : ∀ entry ∈ (text.splitOn '\n').zipIdx,
      spread (insertedOn (mendings.map (Mending.edit text)) entry.2) 0 entry.1 =
        (if entry.2 = 0 then [] else (rowsBelow text mendings (entry.2 - 1)).flatMap
            (· ++ (LineEnding.ofText text).chars)) ++
          (entry.1 ++ if entry.2 + 1 = (text.splitOn '\n').length then
            (rowsBelow text mendings entry.2).flatMap ((LineEnding.ofText text).chars ++ ·)
              else []) := by
    rintro ⟨piece, number⟩ hentry
    exact spread_piece_exact h hend (List.mem_zipIdx_iff_getElem?.mp hentry)
  rw [applyEdits_eq_intercalate (Mending.inText h), List.map_congr_left hpieces,
    intercalate_withRows _ _ _ (List.splitOn_ne_nil '\n' text) (Nat.zero_add _), if_pos rfl,
    List.nil_append, ← wholeLines_eq_endPieces]
  apply wholeLines_flatten
  intro w hw
  rcases mem_withRows hw with hw | ⟨n, hw⟩
  · exact isWhole_of_mem_wholeLines hw
  · obtain ⟨row, hrow, rfl⟩ := List.mem_map.mp hw
    obtain ⟨m, _, rfl⟩ := List.mem_map.mp hrow
    exact isWhole_ending (newline_not_mem_row text m) _

/-- The lines of the edited text, if it does not end in a carriage return either. -/
theorem lines_applyEdits {text : Text} {mendings : List Mending}
    (h : ∀ m ∈ mendings, m.Placed text) (hend : text.getLast? ≠ some '\r')
    (hend' : (applyEdits text (mendings.map (Mending.edit text))).getLast? ≠ some '\r') :
    lines (applyEdits text (mendings.map (Mending.edit text))) =
      withRows (rowsBelow text mendings) 0 (lines text) := by
  rw [lines_eq_wholeLines (LineEnding.ofText text) hend', wholeLines_applyEdits h hend,
    map_withRows, ← lines_eq_wholeLines (LineEnding.ofText text) hend]
  apply withRows_congr
  intro n _ _
  rw [rowsBelow, List.map_map, List.map_map]
  apply List.map_congr_left
  intro m _
  exact lineOf_ending (getLast?_row text m) _

end CalcLint
