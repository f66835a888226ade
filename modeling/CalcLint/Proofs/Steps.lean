import CalcLint.Comma
import CalcLint.Token

/-!
# One step of each pass

The keyword pass, the comma pass and the look-ahead go over a line from suffix to suffix. Their
equations are stated here once for each kind of step, so that no later proof opens the recursions.
-/
namespace CalcLint

variable {before : Option Char} {column : Nat} {c : Char} {tail : Line}

theorem opensComment_iff {line : Line} :
    opensComment line = true ↔ ∃ rest, line = '/' :: '*' :: rest := by
  match line with
  | [] => simp [opensComment]
  | [c] => simp [opensComment]
  | c :: d :: rest => simp [opensComment]

@[simp] theorem opensComment_mark (tail : Line) : opensComment ('/' :: '*' :: tail) = true := rfl

@[simp] theorem opensComment_of_ne (h : c ≠ '/') (tail : Line) :
    opensComment (c :: tail) = false := by
  cases tail <;> simp [opensComment, h]

@[simp] theorem Keyword.match?_nil (before : Option Char) : Keyword.match? before [] = none := by
  cases h : Keyword.match? before [] with
  | none => rfl
  | some k =>
    have hle := width_le_of_begins (begins_of_match? h)
    have hpos := k.width_pos
    simp only [List.length_nil] at hle
    omega

@[simp] theorem scanCode_nil (before : Option Char) (column : Nat) :
    scanCode before column [] = ([], ⟨false⟩) := by
  rw [scanCode]

@[simp] theorem scanCode_open (hnone : afterComment (column + 2) tail = none) :
    scanCode before column ('/' :: '*' :: tail) = ([], ⟨true⟩) := by
  rw [scanCode, if_pos (opensComment_mark tail)]
  split
  · rfl
  · simp_all

theorem scanCode_comment {after : Nat × Line} (hsome : afterComment (column + 2) tail = some after) :
    scanCode before column ('/' :: '*' :: tail) = scanCode (some '/') after.1 after.2 := by
  rw [scanCode, if_pos (opensComment_mark tail)]
  split
  · simp_all
  · simp_all

@[simp] theorem scanCode_string (before : Option Char) (column : Nat) (tail : Line) :
    scanCode before column ('"' :: tail) =
      scanCode (some '"') (afterString (column + 1) tail).1 (afterString (column + 1) tail).2 := by
  rw [scanCode]
  simp

theorem scanCode_keyword (hopen : opensComment (c :: tail) = false) (hquote : c ≠ '"') {k : Keyword}
    (hk : Keyword.match? before (c :: tail) = some k) :
    scanCode before column (c :: tail) =
      (⟨k, column, (c :: tail).take k.width⟩ ::
          (scanCode ((c :: tail).take k.width).getLast? (column + k.width)
            ((c :: tail).drop k.width)).1,
        (scanCode ((c :: tail).take k.width).getLast? (column + k.width)
          ((c :: tail).drop k.width)).2) := by
  rw [scanCode]
  simp [hopen, hquote, hk]

@[simp] theorem scanCode_other (hopen : opensComment (c :: tail) = false) (hquote : c ≠ '"')
    (hk : Keyword.match? before (c :: tail) = none) :
    scanCode before column (c :: tail) = scanCode (some c) (column + 1) tail := by
  rw [scanCode]
  simp [hopen, hquote, hk]

/-- Induction along the keyword pass: one case for each kind of step. -/
@[elab_as_elim] theorem scanCode_induction {motive : Option Char → Nat → Line → Prop}
    (nil : ∀ before column, motive before column [])
    (opened : ∀ before column tail, afterComment (column + 2) tail = none →
      motive before column ('/' :: '*' :: tail))
    (comment : ∀ before column tail after, afterComment (column + 2) tail = some after →
      motive (some '/') after.1 after.2 → motive before column ('/' :: '*' :: tail))
    (string : ∀ before column tail,
      motive (some '"') (afterString (column + 1) tail).1 (afterString (column + 1) tail).2 →
        motive before column ('"' :: tail))
    (keyword : ∀ before column c tail k, opensComment (c :: tail) = false → c ≠ '"' →
      Keyword.match? before (c :: tail) = some k →
        motive ((c :: tail).take k.width).getLast? (column + k.width) ((c :: tail).drop k.width) →
          motive before column (c :: tail))
    (other : ∀ before column c tail, opensComment (c :: tail) = false → c ≠ '"' →
      Keyword.match? before (c :: tail) = none → motive (some c) (column + 1) tail →
        motive before column (c :: tail))
    (before : Option Char) (column : Nat) (rest : Line) : motive before column rest := by
  fun_induction scanCode before column rest with
  | case1 before column => exact nil before column
  | case2 before column c tail hopen hnone =>
    obtain ⟨rest, hline⟩ := opensComment_iff.mp hopen
    cases hline
    exact opened before column rest hnone
  | case3 before column c tail hopen after hsome ih =>
    obtain ⟨rest, hline⟩ := opensComment_iff.mp hopen
    cases hline
    exact comment before column rest after hsome ih
  | case4 before column tail after hopen ih => exact string before column tail ih
  | case5 before column c tail hopen hquote k hk lexeme found ih =>
    exact keyword before column c tail k (Bool.eq_false_iff.mpr hopen) hquote hk ih
  | case6 before column c tail hopen hquote hk ih =>
    exact other before column c tail (Bool.eq_false_iff.mpr hopen) hquote hk ih

@[simp] theorem scanLine_nil (state : ScanState) : scanLine state [] = ([], state) := by
  obtain ⟨inComment⟩ := state
  cases inComment <;> simp [scanLine, afterComment]

/-- The keyword pass over two parts of a document: the second starts where the first ends. -/
theorem scanLines_append (state : ScanState) (first : Nat) (xs ys : List Line) :
    scanLines state first (xs ++ ys) =
      ((scanLines state first xs).1 ++
          (scanLines (scanLines state first xs).2 (first + xs.length) ys).1,
        (scanLines (scanLines state first xs).2 (first + xs.length) ys).2) := by
  induction xs generalizing state first with
  | nil => simp [scanLines]
  | cons line below ih =>
    have hnext : first + (line :: below).length = first + 1 + below.length := by
      rw [List.length_cons]
      omega
    rw [hnext, List.cons_append, scanLines, ih, scanLines, List.append_assoc]

theorem mem_scanLines {state : ScanState} {first : Nat} {document : List Line} {t : Token} :
    t ∈ (scanLines state first document).1 ↔ ∃ i line, document[i]? = some line ∧
      ∃ w ∈ (scanLine (scanLines state first (document.take i)).2 line).1,
        w.onLine (first + i) = t := by
  induction document generalizing state first with
  | nil => simp [scanLines]
  | cons line below ih =>
    rw [scanLines, List.mem_append, ih, List.mem_map]
    constructor
    · rintro (⟨w, hw, rfl⟩ | ⟨i, l, hl, w, hw, rfl⟩)
      · exact ⟨0, line, rfl, w, hw, rfl⟩
      · refine ⟨i + 1, l, hl, w, hw, ?_⟩
        rw [Nat.add_right_comm, Nat.add_assoc]
    · rintro ⟨i, l, hl, w, hw, rfl⟩
      cases i with
      | zero =>
        cases hl
        exact Or.inl ⟨w, hw, rfl⟩
      | succ i =>
        refine Or.inr ⟨i, l, hl, w, hw, ?_⟩
        rw [Nat.add_right_comm, Nat.add_assoc]

variable {below : List Line} {state : CommaState}

@[simp] theorem commaCode_nil (below : List Line) (state : CommaState) (column : Nat) :
    commaCode below state column [] = ([], { state with inComment := false }) := by
  rw [commaCode]

@[simp] theorem commaCode_open (hnone : afterComment (column + 2) tail = none) :
    commaCode below state column ('/' :: '*' :: tail) = ([], { state with inComment := true }) := by
  rw [commaCode, if_pos (opensComment_mark tail)]
  split
  · rfl
  · simp_all

theorem commaCode_comment {after : Nat × Line}
    (hsome : afterComment (column + 2) tail = some after) :
    commaCode below state column ('/' :: '*' :: tail) =
      commaCode below state after.1 after.2 := by
  rw [commaCode, if_pos (opensComment_mark tail)]
  split
  · simp_all
  · simp_all

@[simp] theorem commaCode_string (below : List Line) (state : CommaState) (column : Nat)
    (tail : Line) :
    commaCode below state column ('"' :: tail) =
      commaCode below state (afterString (column + 1) tail).1 (afterString (column + 1) tail).2 := by
  rw [commaCode]
  simp

theorem commaCode_comma (below : List Line) (state : CommaState) (column : Nat) (tail : Line) :
    commaCode below state column (',' :: tail) =
      ((judgeComma (decide (0 < state.depth)) below column tail).toList ++
          (commaCode below state (column + 1) tail).1,
        (commaCode below state (column + 1) tail).2) := by
  rw [commaCode]
  cases judgeComma (decide (0 < state.depth)) below column tail <;> simp

@[simp] theorem commaCode_other (hopen : opensComment (c :: tail) = false) (hquote : c ≠ '"')
    (hcomma : c ≠ ',') :
    commaCode below state column (c :: tail) =
      commaCode below (state.step c) (column + 1) tail := by
  rw [commaCode]
  simp [hopen, hquote, hcomma]

/-- Induction along the comma pass: one case for each kind of step. -/
@[elab_as_elim] theorem commaCode_induction {motive : CommaState → Nat → Line → Prop}
    (nil : ∀ state column, motive state column [])
    (opened : ∀ state column tail, afterComment (column + 2) tail = none →
      motive state column ('/' :: '*' :: tail))
    (comment : ∀ state column tail after, afterComment (column + 2) tail = some after →
      motive state after.1 after.2 → motive state column ('/' :: '*' :: tail))
    (string : ∀ state column tail,
      motive state (afterString (column + 1) tail).1 (afterString (column + 1) tail).2 →
        motive state column ('"' :: tail))
    (comma : ∀ state column tail, motive state (column + 1) tail →
      motive state column (',' :: tail))
    (other : ∀ state column c tail, opensComment (c :: tail) = false → c ≠ '"' → c ≠ ',' →
      motive (state.step c) (column + 1) tail → motive state column (c :: tail))
    (state : CommaState) (column : Nat) (rest : Line) : motive state column rest := by
  fun_induction commaCode [] state column rest with
  | case1 state column => exact nil state column
  | case2 state column c tail hopen hnone =>
    obtain ⟨rest, hline⟩ := opensComment_iff.mp hopen
    cases hline
    exact opened state column rest hnone
  | case3 state column c tail hopen after hsome ih =>
    obtain ⟨rest, hline⟩ := opensComment_iff.mp hopen
    cases hline
    exact comment state column rest after hsome ih
  | case4 state column tail after hopen ih => exact string state column tail ih
  | case5 state column tail found spot hspot hopen hquote ih => exact comma state column tail ih
  | case6 state column tail found hspot hopen hquote ih => exact comma state column tail ih
  | case7 state column c tail hopen hquote hcomma ih =>
    exact other state column c tail (Bool.eq_false_iff.mpr hopen) hquote hcomma ih

@[simp] theorem lookAlong_nil : lookAlong [] = .nothing false := by
  rw [lookAlong]

@[simp] theorem lookAlong_open (hnone : afterComment 0 tail = none) :
    lookAlong ('/' :: '*' :: tail) = .nothing true := by
  rw [lookAlong, if_pos (opensComment_mark tail)]
  split
  · rfl
  · simp_all

theorem lookAlong_comment {after : Nat × Line} (hsome : afterComment 0 tail = some after) :
    lookAlong ('/' :: '*' :: tail) = lookAlong after.2 := by
  rw [lookAlong, if_pos (opensComment_mark tail)]
  split
  · simp_all
  · simp_all

@[simp] theorem lookAlong_blank (hopen : opensComment (c :: tail) = false)
    (hblank : isBlank c = true) :
    lookAlong (c :: tail) = lookAlong tail := by
  rw [lookAlong]
  simp [hopen, hblank]

@[simp] theorem lookAlong_found (hopen : opensComment (c :: tail) = false)
    (hblank : isBlank c = false) :
    lookAlong (c :: tail) = .found c := by
  rw [lookAlong]
  simp [hopen, hblank]

end CalcLint
