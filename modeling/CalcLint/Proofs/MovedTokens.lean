import CalcLint.Proofs.FixRun
import CalcLint.Proofs.KeywordMatch

/-!
# Where the keywords of a mended text stand

A row with nothing but a closer neither ends nor opens a comment or a string, so the keyword pass
is in the same state in front of every line of the text as before. The keywords of the text are all
found again, further down by the number of rows inserted above them. A closer is found in its row,
unless a block comment is open there.
-/
namespace CalcLint

/-- Over blanks the keyword pass comes to the next word boundary. -/
theorem scanCode_blanks {blanks : Line} (hblank : ∀ c ∈ blanks, isBlank c = true)
    {before : Option Char} (hbefore : before.any isWordChar = false) (column : Nat) (rest : Line) :
    ∃ before', before'.any isWordChar = false ∧
      scanCode before column (blanks ++ rest) = scanCode before' (column + blanks.length) rest := by
  induction blanks generalizing before column with
  | nil => exact ⟨before, hbefore, rfl⟩
  | cons c more ih =>
    have hc : isBlank c = true := hblank c List.mem_cons_self
    have hboundary : (some c).any isWordChar = false := isWordChar_of_isBlank hc
    obtain ⟨before', hbefore', heq⟩ :=
      ih (fun d hd => hblank d (List.mem_cons_of_mem c hd)) hboundary (column + 1)
    refine ⟨before', hbefore', ?_⟩
    rw [List.cons_append, scanCode_other (opensComment_of_ne (ne_of_class hc (by decide)) _)
      (ne_of_class hc (by decide)) (Keyword.match?_of_not_isAlpha (isAlpha_of_isBlank hc) _ _), heq,
      List.length_cons, Nat.add_right_comm, Nat.add_assoc]

theorem scanCode_spelling {before : Option Char} (hbefore : before.any isWordChar = false)
    (column : Nat) (k : Keyword) :
    scanCode before column k.spelling = ([⟨k, column, k.spelling⟩], ⟨false⟩) := by
  obtain ⟨c, tail, hspell, hquote, hslash⟩ :
      ∃ c tail, k.spelling = c :: tail ∧ c ≠ '"' ∧ c ≠ '/' := by
    cases k <;> exact ⟨_, _, rfl, by decide, by decide⟩
  have hmatch := Keyword.match?_spelling hbefore k
  have htake : k.spelling.take k.width = k.spelling := List.take_length
  have hdrop : k.spelling.drop k.width = [] := List.drop_length
  rw [hspell] at hmatch htake hdrop ⊢
  rw [scanCode_keyword (opensComment_of_ne hslash tail) hquote hmatch, htake, hdrop, scanCode_nil]

theorem afterComment_eq_none {line : Line} (h : '*' ∉ line) (column : Nat) :
    afterComment column line = none := by
  fun_induction afterComment column line with
  | case1 => rfl
  | case2 => rfl
  | case3 column c d rest hend =>
    rw [hend.1] at h
    exact absurd List.mem_cons_self h
  | case4 column c d rest hend ih => exact ih (fun hmem => h (List.mem_cons_of_mem c hmem))

theorem isBlank_of_mem_indentation {line : Line} {c : Char} (h : c ∈ indentation line) :
    isBlank c = true := by
  have hall := @List.all_takeWhile Char isBlank line
  exact List.all_eq_true.mp hall c h

theorem isInert_of_mem_row {text : Text} {m : Mending} {c : Char} (h : c ∈ m.row text) :
    isInert c = true := by
  rw [Mending.row, List.mem_append] at h
  rcases h with h | h
  · simp [isInert, isBlank_of_mem_indentation h]
  · simp [isInert, isAlpha_of_isUpper (Keyword.isUpper_of_mem_spelling h)]

@[simp] theorem afterComment_row (text : Text) (m : Mending) :
    afterComment 0 (m.row text) = none := by
  apply afterComment_eq_none
  exact fun h => ne_of_class (isInert_of_mem_row h) (by decide) rfl

/-- The closer of a mending, on line `number`. -/
def Mending.token (text : Text) (m : Mending) (number : Nat) : Token :=
  ⟨m.closer, number, (indentation (lineAt text m.opener)).length, m.closer.spelling⟩

/-- In code a row gives its closer; in a comment it is part of the comment. -/
@[simp] theorem scanLine_row (text : Text) (m : Mending) (state : ScanState) :
    scanLine state (m.row text) =
      (if state.inComment then []
        else [⟨m.closer, (indentation (lineAt text m.opener)).length, m.closer.spelling⟩],
        state) := by
  obtain ⟨inComment⟩ := state
  cases inComment with
  | false =>
    have hblank : ∀ c ∈ indentation (lineAt text m.opener), isBlank c = true :=
      fun c hc => isBlank_of_mem_indentation hc
    have hstart : (none : Option Char).any isWordChar = false := rfl
    obtain ⟨before', hbefore', heq⟩ := scanCode_blanks hblank hstart 0 m.closer.spelling
    show scanCode none 0 (m.row text) = _
    rw [Mending.row, heq, scanCode_spelling hbefore', Nat.zero_add]
    rfl
  | true => simp [scanLine]

theorem scanLines_rows (text : Text) (ms : List Mending) (state : ScanState) (first : Nat) :
    scanLines state first (ms.map (Mending.row text)) =
      (if state.inComment then []
        else (ms.zipIdx first).map (fun entry => entry.1.token text entry.2), state) := by
  induction ms generalizing first with
  | nil => simp [scanLines]
  | cons m more ih =>
    simp only [List.map_cons, scanLines, scanLine_row, ih, List.zipIdx_cons]
    split <;> rfl

/-- How many rows are inserted above line `number`. -/
def linesAbove (ms : List Mending) (number : Nat) : Nat :=
  ms.countP (·.opener < number)

/-- Whether a block comment is open behind line `number`. -/
def commentOpenBehind (text : Text) (number : Nat) : Bool :=
  (stateAt text (number + 1)).inComment

/-- A keyword of the text at its place below the inserted rows. -/
def Token.moved (ms : List Mending) (t : Token) : Token :=
  { t with line := t.line + linesAbove ms t.line }

@[simp] theorem Token.moved_kind (ms : List Mending) (t : Token) : (t.moved ms).kind = t.kind := rfl

/-- The closers inserted below line `number` that the keyword pass finds: none in a comment. -/
def closersBelow (text : Text) (ms : List Mending) (number : Nat) : List Token :=
  if commentOpenBehind text number then []
  else
    ((ms.filter (·.opener = number)).zipIdx (number + linesAbove ms number + 1)).map
      fun entry => entry.1.token text entry.2

/-- The keywords of `count` lines from `number` on at their new places, with the closers inserted
below each line. -/
def mendedRows (text : Text) (ms : List Mending) (number count : Nat) : Rows Token :=
  (List.range' number count).map fun n =>
    ((tokensOn text n).map (Token.moved ms), closersBelow text ms n)

theorem mendedRows_succ (text : Text) (ms : List Mending) (number count : Nat) :
    mendedRows text ms number (count + 1) =
      ((tokensOn text number).map (Token.moved ms), closersBelow text ms number) ::
        mendedRows text ms (number + 1) count := by
  rw [mendedRows, List.range'_succ, List.map_cons, mendedRows]

theorem countP_opener_lt_succ (p : Mending → Prop) [DecidablePred p] (ms : List Mending)
    (number : Nat) :
    (ms.countP fun m => m.opener < number + 1 ∧ p m) =
      (ms.countP fun m => m.opener < number ∧ p m) + ms.countP fun m => m.opener = number ∧ p m := by
  induction ms with
  | nil => rfl
  | cons m more ih =>
    simp only [List.countP_cons, ih, decide_eq_true_eq]
    by_cases hp : p m
    · simp only [hp, and_true]
      split_ifs <;> omega
    · simp [hp]

@[simp] theorem linesAbove_succ (ms : List Mending) (number : Nat) :
    linesAbove ms (number + 1) =
      linesAbove ms number + (ms.filter (·.opener = number)).length := by
  have h := countP_opener_lt_succ (fun _ => True) ms number
  simp only [and_true] at h
  rw [linesAbove, h, linesAbove, List.countP_eq_length_filter, List.countP_eq_length_filter]

/-- The keyword pass over a document with its rows. -/
theorem scanLines_withRows {text : Text} (ms : List Mending) {number : Nat} {document : List Line}
    (h : (lines text).drop number = document) :
    (scanLines (stateAt text number) (number + linesAbove ms number)
        (withRows (rowsBelow text ms) number (document.map bare))).1 =
      (mendedRows text ms number document.length).woven := by
  induction document generalizing number with
  | nil => rfl
  | cons line below ih =>
    obtain ⟨hline, hbelow⟩ := of_drop_eq_cons h
    have hnext : number + linesAbove ms number + 1 + (rowsBelow text ms number).length =
        number + 1 + linesAbove ms (number + 1) := by
      rw [linesAbove_succ, rowsBelow, List.length_map]
      omega
    have hhere : (scanLine (stateAt text number) (bare line)).1.map
        (Word.onLine (number + linesAbove ms number)) =
          (tokensOn text number).map (Token.moved ms) := by
      rw [eq_bare (scanLine _) (scanLine_return _), tokensOn_eq hline, List.map_map]
      rfl
    have hrows := scanLines_rows text (ms.filter (·.opener = number)) (stateAt text (number + 1))
      (number + linesAbove ms number + 1)
    have hstate : (scanLine (stateAt text number) (bare line)).2 = stateAt text (number + 1) := by
      rw [eq_bare (scanLine _) (scanLine_return _), stateAt_succ hline]
    rw [List.map_cons, withRows, scanLines, hhere, hstate, scanLines_append, hnext, rowsBelow,
      hrows, ih hbelow, List.length_cons, mendedRows_succ, Rows.woven, Rows.woven,
      List.flatMap_cons, List.append_assoc]
    rfl

@[simp] theorem mendedRows_plain (text : Text) (ms : List Mending) {number count : Nat}
    (h : number + count = (lines text).length) :
    (mendedRows text ms number count).plain = (tokensFrom text number).map (Token.moved ms) := by
  rw [tokensFrom_eq_flatMap text h, List.map_flatMap, Rows.plain, mendedRows, List.flatMap_map]

/-- The keywords of a mended text. -/
theorem scan_applyEdits {text : Text} {ms : List Mending} (h : ∀ m ∈ ms, m.Placed text) :
    scan (applyEdits text (ms.map (Mending.edit text))) =
      (mendedRows text ms 0 (lines text).length).woven := by
  have hnone : linesAbove ms 0 = 0 := by simp [linesAbove]
  have hscan := scanLines_withRows ms (List.drop_zero (l := lines text))
  rw [hnone] at hscan
  rw [scan_eq_bareLines, bareLines_applyEdits h]
  exact hscan

end CalcLint
