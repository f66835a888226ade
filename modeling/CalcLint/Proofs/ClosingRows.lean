import CalcLint.Fix
import CalcLint.Proofs.BareLines
import CalcLint.Proofs.Insertion

/-!
# The lines that closing edits add

A closing edit below an inner line goes in front of the next line and ends with a line break; below
the last line it goes behind that line and begins with one. Through the bare lines both look alike:
every line of the document is followed by the rows of the closers meant for it, in the order in
which these were given, and nothing else changes.
-/
namespace CalcLint

/-- A document with the rows `rows n` below its line number `n`; numbering starts at `number`. -/
def withRows (rows : Nat → List Line) (number : Nat) : List Line → List Line
  | [] => []
  | line :: below => line :: (rows number ++ withRows rows (number + 1) below)

/-- Line `number` of a text; empty when there is none. -/
def lineAt (text : Text) (number : Nat) : Line :=
  (lines text)[number]?.getD []

/-- A closer to be inserted: the line of its opener, and the keyword. -/
structure Mending where
  opener : Nat
  closer : Keyword
  deriving DecidableEq, Repr

namespace Mending

def row (text : Text) (m : Mending) : Line :=
  indentation (lineAt text m.opener) ++ m.closer.spelling

def edit (text : Text) (m : Mending) : Edit :=
  if m.opener + 1 < (lines text).length then
    ⟨⟨m.opener + 1, 0⟩, m.row text ++ (LineEnding.ofText text).chars⟩
  else
    ⟨⟨m.opener, (lineAt text m.opener).length⟩, (LineEnding.ofText text).chars ++ m.row text⟩

/-- The opener stands on a line of the text that is not empty. -/
def Placed (text : Text) (m : Mending) : Prop :=
  ∃ line, (lines text)[m.opener]? = some line ∧ line ≠ []

end Mending

/-- The rows meant for line `number`. -/
def rowsBelow (text : Text) (mendings : List Mending) (number : Nat) : List Line :=
  (mendings.filter (·.opener = number)).map (Mending.row text)

theorem newline_not_mem_of_mem_lines {text : Text} {line : Line} (h : line ∈ lines text) :
    '\n' ∉ line := by
  obtain ⟨piece, hpiece, rfl⟩ := List.mem_map.mp h
  have hclean := newline_not_mem_of_mem_splitOn hpiece
  unfold chopReturn
  split
  · exact fun hmem => hclean ((List.dropLast_sublist piece).subset hmem)
  · exact hclean

theorem newline_not_mem_lineAt (text : Text) (number : Nat) : '\n' ∉ lineAt text number := by
  unfold lineAt
  cases h : (lines text)[number]? with
  | none => simp
  | some line => exact newline_not_mem_of_mem_lines (List.mem_of_getElem? h)

theorem newline_not_mem_row (text : Text) (m : Mending) : '\n' ∉ m.row text := by
  rw [Mending.row, List.mem_append, not_or]
  constructor
  · exact fun h => newline_not_mem_lineAt text m.opener (List.takeWhile_subset _ h)
  · cases m.closer <;> decide

@[simp] theorem bare_row (text : Text) (m : Mending) : bare (m.row text) = m.row text := by
  obtain ⟨front, last, hspell, hlast⟩ :
      ∃ front last, m.closer.spelling = front ++ [last] ∧ last ≠ '\r' := by
    cases m.closer
    · exact ⟨['F', 'I'], 'X', rfl, by decide⟩
    · exact ⟨['E', 'N', 'D', 'F', 'I'], 'X', rfl, by decide⟩
    · exact ⟨['I'], 'F', rfl, by decide⟩
    · exact ⟨['E', 'L', 'S', 'E', 'I'], 'F', rfl, by decide⟩
    · exact ⟨['E', 'L', 'S'], 'E', rfl, by decide⟩
    · exact ⟨['E', 'N', 'D', 'I'], 'F', rfl, by decide⟩
  rw [Mending.row, hspell, ← List.append_assoc, bare_concat _ hlast]

@[simp] theorem bareLines_row (text : Text) (m : Mending) :
    bareLines (m.row text) = [m.row text] := by
  rw [bareLines_of_not_mem (newline_not_mem_row text m), bare_row]

theorem bareLines_rows_before (text : Text) (ending : LineEnding) (ms : List Mending)
    (rest : Text) :
    bareLines (ms.flatMap (fun m => m.row text ++ ending.chars) ++ rest) =
      ms.map (Mending.row text) ++ bareLines rest := by
  induction ms with
  | nil => rfl
  | cons m more ih =>
    simp [ih]

theorem bareLines_rows_behind (text : Text) (ending : LineEnding) (ms : List Mending)
    (front : Text) {back : Text} (hback : back = [] ∨ back = ['\r']) :
    bareLines (front ++ (ms.flatMap (fun m => ending.chars ++ m.row text) ++ back)) =
      bareLines front ++ ms.map (Mending.row text) := by
  induction ms generalizing front with
  | nil =>
    rcases hback with rfl | rfl
    · simp
    · simp
  | cons m more ih =>
    simp [ih]

theorem chopReturn_append (piece : Line) :
    ∃ back, piece = chopReturn piece ++ back ∧ (back = [] ∨ back = ['\r']) := by
  unfold chopReturn
  split
  · rename_i h
    obtain ⟨front, rfl⟩ := List.getLast?_eq_some_iff.mp h
    exact ⟨['\r'], by simp, Or.inr rfl⟩
  · exact ⟨[], by simp, Or.inl rfl⟩

theorem lines_getElem? (text : Text) (number : Nat) :
    (lines text)[number]? = (text.splitOn '\n')[number]?.map chopReturn := by
  simp [lines]

theorem lineAt_eq {text piece : Text} {number : Nat}
    (h : (text.splitOn '\n')[number]? = some piece) : lineAt text number = chopReturn piece := by
  simp [lineAt, lines_getElem?, h]

theorem Mending.inText {text : Text} {mendings : List Mending}
    (h : ∀ m ∈ mendings, m.Placed text) : InText text (mendings.map (Mending.edit text)) := by
  intro e he
  obtain ⟨m, hm, rfl⟩ := List.mem_map.mp he
  obtain ⟨line, hline, _⟩ := h m hm
  rw [lines_getElem?, Option.map_eq_some_iff] at hline
  obtain ⟨piece, hpiece, rfl⟩ := hline
  unfold Mending.edit
  split
  · rename_i hlt
    have hlen : (lines text).length = (text.splitOn '\n').length := by simp [lines]
    exact ⟨_, List.getElem?_eq_getElem (hlen ▸ hlt), Nat.zero_le _⟩
  · refine ⟨piece, hpiece, ?_⟩
    obtain ⟨back, heq, _⟩ := chopReturn_append piece
    rw [lineAt_eq hpiece]
    conv => rhs; rw [heq, List.length_append]
    exact Nat.le_add_right _ _

theorem Mending.edit_above {text : Text} {m : Mending} (h : m.opener + 1 < (lines text).length) :
    m.edit text = ⟨⟨m.opener + 1, 0⟩, m.row text ++ (LineEnding.ofText text).chars⟩ := by
  rw [Mending.edit, if_pos h]

theorem Mending.edit_last {text : Text} {m : Mending} (h : m.opener + 1 = (lines text).length) :
    m.edit text =
      ⟨⟨m.opener, (lineAt text m.opener).length⟩,
        (LineEnding.ofText text).chars ++ m.row text⟩ := by
  rw [Mending.edit, if_neg (by omega)]

theorem Mending.edit_position {text : Text} {m : Mending} (h : m.Placed text) {number column : Nat}
    (hnumber : number < (lines text).length) :
    (m.edit text).position = ⟨number, column⟩ ↔
      m.opener + 1 = number ∧ column = 0 ∨
        m.opener = number ∧ number + 1 = (lines text).length ∧
          column = (lineAt text number).length := by
  obtain ⟨line, hline, _⟩ := h
  obtain ⟨hlt, _⟩ := List.getElem?_eq_some_iff.mp hline
  by_cases hlast : m.opener + 1 = (lines text).length
  · rw [Mending.edit_last hlast, Position.mk.injEq]
    constructor
    · rintro ⟨rfl, rfl⟩
      exact Or.inr ⟨rfl, hlast, rfl⟩
    · rintro (⟨hnext, _⟩ | ⟨rfl, _, rfl⟩)
      · omega
      · exact ⟨rfl, rfl⟩
  · rw [Mending.edit_above (by omega), Position.mk.injEq]
    constructor
    · rintro ⟨hnext, hzero⟩
      exact Or.inl ⟨hnext, hzero.symm⟩
    · rintro (⟨hnext, hzero⟩ | ⟨rfl, hlast', _⟩)
      · exact ⟨hnext, hzero.symm⟩
      · omega

/-- What the closing edits insert at the start of a line: the rows of the line above. -/
theorem insertedOn_start {text : Text} {mendings : List Mending}
    (h : ∀ m ∈ mendings, m.Placed text) {number : Nat} (hnumber : number < (lines text).length) :
    insertedOn (mendings.map (Mending.edit text)) number 0 =
      (mendings.filter (·.opener + 1 = number)).flatMap
        (fun m => m.row text ++ (LineEnding.ofText text).chars) := by
  have hfilter : mendings.filter (fun m => (m.edit text).position = ⟨number, 0⟩) =
      mendings.filter (·.opener + 1 = number) := by
    apply List.filter_congr
    intro m hm
    rw [decide_eq_decide, Mending.edit_position (h m hm) hnumber]
    constructor
    · rintro (⟨hnext, _⟩ | ⟨rfl, _, hzero⟩)
      · exact hnext
      · obtain ⟨line, hline, hne⟩ := h m hm
        simp only [lineAt, hline, Option.getD_some] at hzero
        exact absurd (List.eq_nil_of_length_eq_zero hzero.symm) hne
    · exact fun hnext => Or.inl ⟨hnext, rfl⟩
  rw [insertedOn, List.filter_map, List.flatMap_map]
  show (mendings.filter (fun m => (m.edit text).position = ⟨number, 0⟩)).flatMap _ = _
  rw [hfilter]
  apply List.flatMap_congr
  intro m hm
  have hnext : m.opener + 1 = number := of_decide_eq_true (List.mem_filter.mp hm).2
  rw [Mending.edit_above (by omega)]

/-- What the closing edits insert inside a line or at its end: the rows of the last line at its
end, and nothing else. -/
theorem insertedOn_inside {text : Text} {mendings : List Mending}
    (h : ∀ m ∈ mendings, m.Placed text) {number column : Nat}
    (hnumber : number < (lines text).length) (hcolumn : column ≠ 0) :
    insertedOn (mendings.map (Mending.edit text)) number column =
      if number + 1 = (lines text).length ∧ column = (lineAt text number).length then
        (mendings.filter (·.opener = number)).flatMap
          (fun m => (LineEnding.ofText text).chars ++ m.row text)
      else [] := by
  rw [insertedOn, List.filter_map, List.flatMap_map]
  show (mendings.filter (fun m => (m.edit text).position = ⟨number, column⟩)).flatMap _ = _
  split
  · rename_i hend
    have hfilter : mendings.filter (fun m => (m.edit text).position = ⟨number, column⟩) =
        mendings.filter (·.opener = number) := by
      apply List.filter_congr
      intro m hm
      rw [decide_eq_decide, Mending.edit_position (h m hm) hnumber]
      constructor
      · rintro (⟨_, hzero⟩ | ⟨hsame, _⟩)
        · exact absurd hzero hcolumn
        · exact hsame
      · exact fun hsame => Or.inr ⟨hsame, hend⟩
    rw [hfilter]
    apply List.flatMap_congr
    intro m hm
    have hsame : m.opener = number := of_decide_eq_true (List.mem_filter.mp hm).2
    rw [Mending.edit_last (by omega)]
  · rename_i hend
    rw [List.filter_eq_nil_iff.mpr, List.flatMap_nil]
    intro m hm
    rw [decide_eq_true_eq, Mending.edit_position (h m hm) hnumber]
    rintro (⟨_, hzero⟩ | ⟨_, hend'⟩)
    · exact hcolumn hzero
    · exact hend hend'

/-- An empty line has no opener. -/
theorem filter_opener_of_empty {text : Text} {mendings : List Mending}
    (h : ∀ m ∈ mendings, m.Placed text) {number : Nat} (hempty : lineAt text number = []) :
    mendings.filter (·.opener = number) = [] := by
  rw [List.filter_eq_nil_iff]
  intro m hm
  obtain ⟨line, hline, hne⟩ := h m hm
  rw [decide_eq_true_eq]
  rintro rfl
  rw [lineAt, hline, Option.getD_some] at hempty
  exact hne hempty

/-- The mendings whose rows go behind a piece: those of the last line. -/
def lastMendings (text : Text) (mendings : List Mending) (number : Nat) : List Mending :=
  if number + 1 = (lines text).length then mendings.filter (·.opener = number) else []

/-- A piece of the edited text: the rows of the line above, the piece, and behind the last one its
own rows. Where the piece ends in a carriage return they go in front of it. -/
theorem spread_piece {text piece back : Text} {mendings : List Mending}
    (h : ∀ m ∈ mendings, m.Placed text) {number : Nat}
    (hpiece : (text.splitOn '\n')[number]? = some piece) (hback : piece = chopReturn piece ++ back) :
    spread (insertedOn (mendings.map (Mending.edit text)) number) 0 piece =
      (mendings.filter (·.opener + 1 = number)).flatMap
          (fun m => m.row text ++ (LineEnding.ofText text).chars) ++
        (chopReturn piece ++ ((lastMendings text mendings number).flatMap
          (fun m => (LineEnding.ofText text).chars ++ m.row text) ++ back)) := by
  have hnumber : number < (lines text).length := by
    obtain ⟨hlt, _⟩ := List.getElem?_eq_some_iff.mp hpiece
    simpa [lines] using hlt
  have hline := lineAt_eq hpiece
  let last := (lastMendings text mendings number).flatMap
    (fun m => (LineEnding.ofText text).chars ++ m.row text)
  let gap := fun o => if o = (chopReturn piece).length then last else []
  have hzero : gap 0 = [] := by
    dsimp only [gap]
    split
    · rename_i hlen
      have hown : lastMendings text mendings number = [] := by
        rw [lastMendings,
          filter_opener_of_empty h (hline.trans (List.eq_nil_of_length_eq_zero hlen.symm)),
          ite_self]
      dsimp only [last]
      rw [hown, List.flatMap_nil]
    · rfl
  have hstart : insertedOn (mendings.map (Mending.edit text)) number 0 =
      (mendings.filter (·.opener + 1 = number)).flatMap
        (fun m => m.row text ++ (LineEnding.ofText text).chars) ++ gap 0 := by
    rw [insertedOn_start h hnumber, hzero, List.append_nil]
  have hrest : ∀ o, 0 < o → insertedOn (mendings.map (Mending.edit text)) number o = gap o := by
    intro o ho
    rw [insertedOn_inside h hnumber (by omega), hline]
    dsimp only [gap, last, lastMendings]
    by_cases hn : number + 1 = (lines text).length <;> simp [hn]
  have hspread : spread gap 0 piece = chopReturn piece ++ (last ++ back) := by
    have hat := spread_at last (chopReturn piece) back
    rw [← hback] at hat
    exact hat
  rw [spread_front piece hstart hrest, hspread]

theorem bareLines_piece {text piece : Text} {mendings : List Mending}
    (h : ∀ m ∈ mendings, m.Placed text) {number : Nat}
    (hpiece : (text.splitOn '\n')[number]? = some piece) :
    bareLines (spread (insertedOn (mendings.map (Mending.edit text)) number) 0 piece) =
      (mendings.filter (·.opener + 1 = number)).map (Mending.row text) ++
        bare piece ::
          if number + 1 = (lines text).length then rowsBelow text mendings number else [] := by
  obtain ⟨back, hback, hreturn⟩ := chopReturn_append piece
  have hclean : '\n' ∉ chopReturn piece := by
    rw [← lineAt_eq hpiece]
    exact newline_not_mem_lineAt text number
  rw [spread_piece h hpiece hback, bareLines_rows_before, bareLines_rows_behind _ _ _ _ hreturn,
    bareLines_of_not_mem hclean, bare_chopReturn, lastMendings]
  congr 2
  split <;> rfl

theorem withRows_zipIdx (rows : Nat → List Line) (total : Nat) {pieces : List Line}
    (hne : pieces ≠ []) {number : Nat} (htotal : number + pieces.length = total) :
    ((pieces.zipIdx number).flatMap fun entry =>
        (if entry.2 = 0 then [] else rows (entry.2 - 1)) ++
          bare entry.1 :: if entry.2 + 1 = total then rows entry.2 else []) =
      (if number = 0 then [] else rows (number - 1)) ++
        withRows rows number (pieces.map bare) := by
  induction pieces generalizing number with
  | nil => contradiction
  | cons piece rest ih =>
    rw [List.zipIdx_cons, List.flatMap_cons, List.map_cons, withRows]
    cases rest with
    | nil => simp_all [withRows]
    | cons next more =>
      have hlen : (next :: more).length ≠ 0 := by simp
      rw [ih (by simp) (by simp only [List.length_cons] at *; omega)]
      have hinner : ¬ number + 1 = total := by simp only [List.length_cons] at *; omega
      simp [hinner]

/-- Closing edits give every line the rows meant for it, and change nothing else. -/
theorem bareLines_applyEdits {text : Text} {mendings : List Mending}
    (h : ∀ m ∈ mendings, m.Placed text) :
    bareLines (applyEdits text (mendings.map (Mending.edit text))) =
      withRows (rowsBelow text mendings) 0 (bareLines text) := by
  have hlen : (lines text).length = (text.splitOn '\n').length := by simp [lines]
  have hne := List.splitOn_ne_nil '\n' text
  rw [applyEdits_eq_intercalate (Mending.inText h), bareLines_intercalate (by simp),
    List.flatMap_map]
  have hpieces : ∀ entry ∈ (text.splitOn '\n').zipIdx,
      bareLines (spread (insertedOn (mendings.map (Mending.edit text)) entry.2) 0 entry.1) =
        (if entry.2 = 0 then [] else rowsBelow text mendings (entry.2 - 1)) ++
          bare entry.1 ::
            if entry.2 + 1 = (text.splitOn '\n').length then
              rowsBelow text mendings entry.2 else [] := by
    rintro ⟨piece, number⟩ hentry
    rw [bareLines_piece h (List.mem_zipIdx_iff_getElem?.mp hentry), hlen]
    congr 1
    cases number with
    | zero => simp
    | succ number => simp [rowsBelow]
  rw [List.flatMap_congr hpieces, withRows_zipIdx _ _ hne (Nat.zero_add _), bareLines_eq]
  rfl

end CalcLint
