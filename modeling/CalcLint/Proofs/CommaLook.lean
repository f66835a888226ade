import CalcLint.Proofs.KeywordMatch
import CalcLint.Proofs.TokenOrder
import Mathlib.Data.List.DropRight

/-!
# What the comma pass shares with the keyword pass

The comma pass sees the lines below only from a comma behind which its line is blank, and there
only their first significant character. At every line end it agrees with the keyword pass on
whether a comment is open, and a line along which the look-ahead finds nothing holds no keyword.
-/
namespace CalcLint

/-- Blanks and letters: they open and close nothing. -/
def isInert (c : Char) : Bool :=
  isBlank c || c.isAlpha

@[simp] theorem step_of_isInert {c : Char} (h : isInert c = true) (state : CommaState) :
    state.step c = state := by
  unfold CommaState.step
  split
  · exact absurd h (by decide)
  · exact absurd h (by decide)
  · exact absurd h (by decide)
  · exact absurd h (by decide)
  · rfl

theorem commaCode_inert {front : Line} (h : ∀ c ∈ front, isInert c = true) (below : List Line)
    (state : CommaState) (column : Nat) (rest : Line) :
    commaCode below state column (front ++ rest) =
      commaCode below state (column + front.length) rest := by
  induction front generalizing column with
  | nil => rfl
  | cons c more ih =>
    have hc : isInert c = true := h c List.mem_cons_self
    rw [List.cons_append, commaCode_other (opensComment_of_ne (ne_of_class hc (by decide)) _)
      (ne_of_class hc (by decide)) (ne_of_class hc (by decide)), step_of_isInert hc,
      ih (fun d hd => h d (List.mem_cons_of_mem c hd)), List.length_cons, Nat.add_right_comm,
      Nat.add_assoc]

theorem commaCode_inert_line {line : Line} (h : ∀ c ∈ line, isInert c = true) (below : List Line)
    (state : CommaState) (column : Nat) :
    commaCode below state column line = ([], { state with inComment := false }) := by
  have hline := commaCode_inert h below state column []
  rwa [List.append_nil, commaCode_nil] at hline

theorem lookAlong_blanks {blanks : Line} (h : ∀ c ∈ blanks, isBlank c = true) (rest : Line) :
    lookAlong (blanks ++ rest) = lookAlong rest := by
  induction blanks with
  | nil => rfl
  | cons c more ih =>
    have hc : isBlank c = true := h c List.mem_cons_self
    rw [List.cons_append, lookAlong_blank (opensComment_of_ne (ne_of_class hc (by decide)) _) hc,
      ih (fun d hd => h d (List.mem_cons_of_mem c hd))]

theorem dropWhile_isBlank_eq_nil_iff {line : Line} :
    line.dropWhile isBlank = [] ↔ line.all isBlank = true := by
  rw [List.dropWhile_eq_nil_iff, List.all_eq_true]

/-- With something visible behind it on its line a comma is judged without the lines below. -/
theorem judgeComma_visible {after : Line} (h : after.all isBlank = false) (enclosed : Bool)
    (below below' : List Line) (column : Nat) :
    judgeComma enclosed below column after = judgeComma enclosed below' column after := by
  unfold judgeComma
  split
  · rfl
  · rename_i hnil
    rw [dropWhile_isBlank_eq_nil_iff.mp hnil] at h
    contradiction

theorem judgeComma_congr {below below' : List Line}
    (h : nextSignificant? false below = nextSignificant? false below') (enclosed : Bool)
    (column : Nat) (after : Line) :
    judgeComma enclosed below column after = judgeComma enclosed below' column after := by
  unfold judgeComma
  rw [h]

/-- The comma pass over a line depends on the lines below only through the first character it sees
there, and only if the line does not end in a comment. -/
theorem commaCode_congr {below below' : List Line} {state : CommaState} {column : Nat} {rest : Line}
    (h : (commaCode below state column rest).2.inComment = false →
      nextSignificant? false below = nextSignificant? false below') :
    commaCode below state column rest = commaCode below' state column rest := by
  induction state, column, rest using commaCode_induction with
  | nil state column => rw [commaCode_nil, commaCode_nil]
  | opened state column tail hnone => rw [commaCode_open hnone, commaCode_open hnone]
  | comment state column tail after hsome ih =>
    rw [commaCode_comment hsome] at h ⊢
    rw [commaCode_comment hsome, ih h]
  | string state column tail ih =>
    rw [commaCode_string] at h ⊢
    rw [commaCode_string, ih h]
  | comma state column tail ih =>
    rw [commaCode_comma] at h ⊢
    rw [commaCode_comma, ih h]
    congr 3
    cases hblank : tail.all isBlank with
    | false => exact judgeComma_visible hblank _ _ _ _
    | true =>
      have hinert : ∀ c ∈ tail, isInert c = true := by
        intro c hc
        simp [isInert, List.all_eq_true.mp hblank c hc]
      apply judgeComma_congr
      apply h
      rw [commaCode_inert_line hinert]
  | other state column c tail hopen hquote hcomma ih =>
    rw [commaCode_other hopen hquote hcomma] at h ⊢
    rw [commaCode_other hopen hquote hcomma, ih h]

/-- The character the look-ahead stops at is neither a comma nor a closer. -/
def Quiet (below : List Line) : Prop :=
  ∃ c, nextSignificant? false below = some c ∧ c ≠ ',' ∧ isCloser c = false

/-- Whether a spot of a line has nothing but blanks behind it there. -/
def CommaSpot.dangling (line : Line) (spot : CommaSpot) : Bool :=
  (line.drop (spot.column + 1)).all isBlank

theorem judgeComma_quiet {below : List Line} (h : Quiet below) {after : Line}
    (hblank : after.all isBlank = true) (enclosed : Bool) (column : Nat) :
    judgeComma enclosed below column after = none := by
  obtain ⟨c, hc, hcomma, hcloser⟩ := h
  unfold judgeComma
  rw [dropWhile_isBlank_eq_nil_iff.mpr hblank, hc]
  simp [hcomma, hcloser]

theorem column_of_judgeComma {enclosed : Bool} {below : List Line} {column : Nat} {after : Line}
    {spot : CommaSpot} (h : judgeComma enclosed below column after = some spot) :
    spot.column = column := by
  unfold judgeComma at h
  split at h
  · split_ifs at h <;> cases h <;> rfl
  · split at h
    · split_ifs at h <;> cases h <;> rfl
    · contradiction

/-- Above quiet lines the pass reports what it would report elsewhere, less the commas at the end
of the line. -/
theorem commaCode_quiet {below' : List Line} (h : Quiet below') (below : List Line)
    {line : Line} {state : CommaState} {column : Nat} {rest : Line} (hrest : rest = line.drop column) :
    commaCode below' state column rest =
      ((commaCode below state column rest).1.filter (!·.dangling line),
        (commaCode below state column rest).2) := by
  induction state, column, rest using commaCode_induction with
  | nil state column => rw [commaCode_nil, commaCode_nil, List.filter_nil]
  | opened state column tail hnone =>
    rw [commaCode_open hnone, commaCode_open hnone, List.filter_nil]
  | comment state column tail after hsome ih =>
    obtain ⟨k, _, rfl⟩ := afterComment_eq_drop hsome
    rw [commaCode_comment hsome, commaCode_comment hsome]
    exact ih (drop_eq_drop (tail_eq_drop (tail_eq_drop hrest)) k)
  | string state column tail ih =>
    obtain ⟨k, _, heq⟩ := afterString_eq_drop (column + 1) tail
    rw [commaCode_string, commaCode_string]
    apply ih
    rw [heq]
    exact drop_eq_drop (tail_eq_drop hrest) k
  | comma state column tail ih =>
    have htail := tail_eq_drop hrest
    rw [commaCode_comma, commaCode_comma, ih htail, List.filter_append]
    congr 2
    cases hblank : tail.all isBlank with
    | false =>
      rw [judgeComma_visible hblank _ below' below]
      cases hspot : judgeComma (decide (0 < state.depth)) below column tail with
      | none => rfl
      | some spot =>
        have hdangling : spot.dangling line = false := by
          rw [CommaSpot.dangling, column_of_judgeComma hspot, ← htail, hblank]
        simp [hdangling]
    | true =>
      rw [judgeComma_quiet h hblank]
      cases hspot : judgeComma (decide (0 < state.depth)) below column tail with
      | none => rfl
      | some spot =>
        have hdangling : spot.dangling line = true := by
          rw [CommaSpot.dangling, column_of_judgeComma hspot, ← htail, hblank]
        simp [hdangling]
  | other state column c tail hopen hquote hcomma ih =>
    rw [commaCode_other hopen hquote hcomma, commaCode_other hopen hquote hcomma]
    exact ih (tail_eq_drop hrest)

theorem commaLine_congr {below below' : List Line} {state : CommaState} {line : Line}
    (h : (commaLine state line below).2.inComment = false →
      nextSignificant? false below = nextSignificant? false below') :
    commaLine state line below = commaLine state line below' := by
  unfold commaLine at h ⊢
  split
  · rename_i hopen
    rw [if_pos hopen] at h
    cases hafter : afterComment 0 line with
    | none => rfl
    | some after =>
      rw [hafter] at h
      exact commaCode_congr h
  · rename_i hopen
    rw [if_neg hopen] at h
    exact commaCode_congr h

theorem commaLine_quiet {below' : List Line} (h : Quiet below') (below : List Line)
    (state : CommaState) (line : Line) :
    commaLine state line below' =
      ((commaLine state line below).1.filter (!·.dangling line),
        (commaLine state line below).2) := by
  unfold commaLine
  split
  · cases hafter : afterComment 0 line with
    | none => rfl
    | some after =>
      obtain ⟨k, _, rfl⟩ := afterComment_eq_drop hafter
      exact commaCode_quiet h below (by simp)
  · exact commaCode_quiet h below rfl

theorem isInert_of_match? {before : Option Char} {rest : Line} {k : Keyword}
    (h : Keyword.match? before rest = some k) : ∀ c ∈ rest.take k.width, isInert c = true := by
  intro c hc
  simp [isInert, Keyword.isAlpha_of_begins (Keyword.begins_of_match? h) hc]

/-- Both passes agree on whether a comment is open at the end of a line. -/
@[simp] theorem commaCode_inComment (below : List Line) (state : CommaState) (before : Option Char)
    (column : Nat) (rest : Line) :
    (commaCode below state column rest).2.inComment =
      (scanCode before column rest).2.inComment := by
  induction before, column, rest using scanCode_induction generalizing state with
  | nil before column => rw [commaCode_nil, scanCode_nil]
  | opened before column tail hnone => rw [commaCode_open hnone, scanCode_open hnone]
  | comment before column tail after hsome ih =>
    rw [commaCode_comment hsome, scanCode_comment hsome, ih]
  | string before column tail ih => rw [commaCode_string, scanCode_string, ih]
  | keyword before column c tail k hopen hquote hk ih =>
    have hw := Keyword.width_le_of_begins (Keyword.begins_of_match? hk)
    have hinert := commaCode_inert (isInert_of_match? hk) below state column
      ((c :: tail).drop k.width)
    rw [List.take_append_drop, List.length_take_of_le hw] at hinert
    rw [scanCode_keyword hopen hquote hk, hinert, ih]
  | other before column c tail hopen hquote hk ih =>
    rw [scanCode_other hopen hquote hk]
    by_cases hcomma : c = ','
    · rw [hcomma, commaCode_comma, ← hcomma]
      exact ih state
    · rw [commaCode_other hopen hquote hcomma, ih]

@[simp] theorem commaLine_inComment (state : CommaState) (line : Line) (below : List Line) :
    (commaLine state line below).2.inComment = (scanLine ⟨state.inComment⟩ line).2.inComment := by
  unfold commaLine scanLine
  split
  · rename_i hopen
    cases afterComment 0 line with
    | none => exact hopen
    | some after => exact commaCode_inComment _ _ _ _ _
  · exact commaCode_inComment _ _ _ _ _

theorem afterComment_shift (column : Nat) (line : Line) :
    afterComment column line = (afterComment 0 line).map fun after => (column + after.1, after.2) := by
  induction line generalizing column with
  | nil => rfl
  | cons c rest ih =>
    cases rest with
    | nil => rfl
    | cons d rest =>
      rw [afterComment, afterComment]
      split
      · simp
      · rw [ih (column + 1), ih (0 + 1), Option.map_map]
        congr 1
        funext after
        simp [Nat.add_assoc]

/-- A stretch of code along which the look-ahead finds nothing holds no keyword. -/
theorem scanCode_of_lookAlong {before : Option Char} {column : Nat} {rest : Line}
    {inComment : Bool} (h : lookAlong rest = .nothing inComment) :
    scanCode before column rest = ([], ⟨inComment⟩) := by
  induction before, column, rest using scanCode_induction with
  | nil before column =>
    rw [lookAlong_nil] at h
    cases h
    exact scanCode_nil before column
  | opened before column tail hnone =>
    have hnone' : afterComment 0 tail = none := by
      rwa [afterComment_shift, Option.map_eq_none_iff] at hnone
    rw [lookAlong_open hnone'] at h
    cases h
    exact scanCode_open hnone
  | comment before column tail after hsome ih =>
    have hshift := hsome
    rw [afterComment_shift, Option.map_eq_some_iff] at hshift
    obtain ⟨after', hsome', rfl⟩ := hshift
    rw [lookAlong_comment hsome'] at h
    rw [scanCode_comment hsome]
    exact ih h
  | string before column tail ih =>
    rw [lookAlong_found (opensComment_of_ne (by decide) tail) (by decide)] at h
    contradiction
  | keyword before column c tail k hopen hquote hk ih =>
    have hblank : isBlank c = false := by
      rw [Bool.eq_false_iff]
      intro hblank
      rw [Keyword.match?_of_not_isAlpha (isAlpha_of_isBlank hblank)] at hk
      contradiction
    rw [lookAlong_found hopen hblank] at h
    contradiction
  | other before column c tail hopen hquote hk ih =>
    rw [scanCode_other hopen hquote hk]
    cases hblank : isBlank c with
    | true => exact ih (by rwa [lookAlong_blank hopen hblank] at h)
    | false =>
      rw [lookAlong_found hopen hblank] at h
      contradiction

theorem scanLine_of_lookAlong {isOpen inComment : Bool} {line : Line}
    (h : lookAlongLine isOpen line = .nothing inComment) :
    scanLine ⟨isOpen⟩ line = ([], ⟨inComment⟩) := by
  unfold lookAlongLine at h
  unfold scanLine
  split at h
  · rename_i hopen
    rw [if_pos hopen]
    cases hafter : afterComment 0 line with
    | none =>
      rw [hafter] at h
      cases h
      rfl
    | some after =>
      rw [hafter] at h
      exact scanCode_of_lookAlong h
  · rename_i hopen
    rw [if_neg hopen]
    exact scanCode_of_lookAlong h

end CalcLint
