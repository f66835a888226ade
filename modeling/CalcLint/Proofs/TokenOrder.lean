import CalcLint.Proofs.Steps

/-!
# The order of tokens

A pass over a line always goes on with a suffix of the line, at the column where that suffix
starts. So the words it finds follow each other without overlap, and the tokens of a document stand
in reading order, one line after the other.
-/
namespace CalcLint

theorem afterComment_eq_drop {column : Nat} {line : Line} {after : Nat × Line}
    (h : afterComment column line = some after) :
    ∃ k, k ≤ line.length ∧ after = (column + k, line.drop k) := by
  fun_induction afterComment column line with
  | case1 => contradiction
  | case2 => contradiction
  | case3 column c d rest hend =>
    cases h
    exact ⟨2, by simp, rfl⟩
  | case4 column c d rest hend ih =>
    obtain ⟨k, hk, rfl⟩ := ih h
    refine ⟨k + 1, Nat.succ_le_succ hk, ?_⟩
    rw [List.drop_succ_cons, Nat.add_assoc, Nat.add_comm 1 k]

theorem afterString_eq_drop (column : Nat) (line : Line) :
    ∃ k, k ≤ line.length ∧ afterString column line = (column + k, line.drop k) := by
  fun_induction afterString column line with
  | case1 column => exact ⟨0, by simp, rfl⟩
  | case2 column c => exact ⟨1, by simp, rfl⟩
  | case3 column d rest ih =>
    obtain ⟨k, hk, heq⟩ := ih
    refine ⟨k + 2, by simpa using hk, ?_⟩
    rw [heq, List.drop_succ_cons, List.drop_succ_cons, Nat.add_assoc, Nat.add_comm 2 k]
  | case4 column d rest h => exact ⟨1, by simp, rfl⟩
  | case5 column c d rest h h' ih =>
    obtain ⟨k, hk, heq⟩ := ih
    refine ⟨k + 1, Nat.succ_le_succ hk, ?_⟩
    rw [heq, List.drop_succ_cons, Nat.add_assoc, Nat.add_comm 1 k]

theorem of_drop_eq_cons {α : Type} {xs rest : List α} {n : Nat} {x : α}
    (h : xs.drop n = x :: rest) : xs[n]? = some x ∧ xs.drop (n + 1) = rest := by
  constructor
  · rw [← List.head?_drop, h, List.head?_cons]
  · rw [← List.tail_drop, h, List.tail_cons]

/-- The characters behind the first one of a suffix are a suffix. -/
theorem tail_eq_drop {line tail : Line} {column : Nat} {c : Char}
    (h : c :: tail = line.drop column) : tail = line.drop (column + 1) :=
  (of_drop_eq_cons h.symm).2.symm

theorem drop_eq_drop {line rest : Line} {column : Nat} (h : rest = line.drop column) (k : Nat) :
    rest.drop k = line.drop (column + k) := by
  rw [h, List.drop_drop]

/-- One word ends before the other begins. -/
def Word.Before (v w : Word) : Prop :=
  v.column + v.lexeme.length ≤ w.column

/-- Words in order, none of them in front of a column. -/
def WordsFrom (column : Nat) (words : List Word) : Prop :=
  (∀ w ∈ words, column ≤ w.column) ∧ words.Pairwise Word.Before

theorem WordsFrom.mono {column column' : Nat} {words : List Word} (h : WordsFrom column words)
    (hle : column' ≤ column) : WordsFrom column' words :=
  ⟨fun w hw => Nat.le_trans hle (h.1 w hw), h.2⟩

theorem scanCode_wordsFrom (before : Option Char) (column : Nat) (rest : Line) :
    WordsFrom column (scanCode before column rest).1 := by
  induction before, column, rest using scanCode_induction with
  | nil before column => simp [WordsFrom]
  | opened before column tail hnone => simp [WordsFrom, scanCode_open hnone]
  | comment before column tail after hsome ih =>
    obtain ⟨k, _, rfl⟩ := afterComment_eq_drop hsome
    rw [scanCode_comment hsome]
    exact ih.mono (by simp only; omega)
  | string before column tail ih =>
    obtain ⟨k, _, heq⟩ := afterString_eq_drop (column + 1) tail
    rw [scanCode_string]
    rw [heq] at ih ⊢
    exact ih.mono (by simp only; omega)
  | keyword before column c tail k hopen hquote hk ih =>
    have hw := Keyword.width_le_of_begins (Keyword.begins_of_match? hk)
    obtain ⟨hle, hpair⟩ := ih
    rw [scanCode_keyword hopen hquote hk]
    constructor
    · intro w hmem
      rcases List.mem_cons.mp hmem with rfl | hmem
      · exact Nat.le_refl column
      · exact Nat.le_trans (Nat.le_add_right column k.width) (hle w hmem)
    · refine List.pairwise_cons.mpr ⟨?_, hpair⟩
      intro w hmem
      rw [Word.Before, List.length_take_of_le hw]
      exact hle w hmem
  | other before column c tail hopen hquote hk ih =>
    rw [scanCode_other hopen hquote hk]
    exact ih.mono (Nat.le_succ column)

theorem scanLine_pairwise (state : ScanState) (line : Line) :
    (scanLine state line).1.Pairwise Word.Before := by
  unfold scanLine
  split
  · split
    · exact List.Pairwise.nil
    · exact (scanCode_wordsFrom _ _ _).2
  · exact (scanCode_wordsFrom _ _ _).2

/-- A word has the width of its keyword. -/
theorem scanCode_lexeme_length {before : Option Char} {column : Nat} {rest : Line} {w : Word}
    (h : w ∈ (scanCode before column rest).1) : w.lexeme.length = w.kind.width := by
  induction before, column, rest using scanCode_induction with
  | nil before column => simp at h
  | opened before column tail hnone => simp [scanCode_open hnone] at h
  | comment before column tail after hsome ih => exact ih (by rwa [scanCode_comment hsome] at h)
  | string before column tail ih => exact ih (by rwa [scanCode_string] at h)
  | keyword before column c tail k hopen hquote hk ih =>
    have hw := Keyword.width_le_of_begins (Keyword.begins_of_match? hk)
    rw [scanCode_keyword hopen hquote hk] at h
    rcases List.mem_cons.mp h with rfl | hmem
    · exact List.length_take_of_le hw
    · exact ih hmem
  | other before column c tail hopen hquote hk ih =>
    exact ih (by rwa [scanCode_other hopen hquote hk] at h)

theorem scanLine_lexeme_length {state : ScanState} {line : Line} {w : Word}
    (h : w ∈ (scanLine state line).1) : w.lexeme.length = w.kind.width := by
  unfold scanLine at h
  split at h
  · split at h
    · simp at h
    · exact scanCode_lexeme_length h
  · exact scanCode_lexeme_length h

/-- Reading order without overlap: on a later line, or behind the end on the same one. -/
def Token.Before (s t : Token) : Prop :=
  s.line < t.line ∨ s.line = t.line ∧ s.column + s.lexeme.length ≤ t.column

theorem scanLines_pairwise (state : ScanState) (first : Nat) (document : List Line) :
    (scanLines state first document).1.Pairwise Token.Before := by
  induction document generalizing state first with
  | nil => exact List.Pairwise.nil
  | cons line below ih =>
    rw [scanLines, List.pairwise_append]
    refine ⟨?_, ih _ _, ?_⟩
    · rw [List.pairwise_map]
      exact (scanLine_pairwise state line).imp (fun h => Or.inr ⟨rfl, h⟩)
    · intro s hs t ht
      obtain ⟨w, _, rfl⟩ := List.mem_map.mp hs
      obtain ⟨i, _, _, w', _, rfl⟩ := mem_scanLines.mp ht
      left
      simp only [Word.onLine]
      omega

/-- The tokens of a document stand in reading order and do not overlap. -/
theorem scan_pairwise (text : Text) : (scan text).Pairwise Token.Before :=
  scanLines_pairwise {} 0 (lines text)

@[simp] theorem lexeme_length_of_mem_scan {text : Text} {t : Token} (h : t ∈ scan text) :
    t.lexeme.length = t.kind.width := by
  obtain ⟨i, line, _, w, hw, rfl⟩ := mem_scanLines.mp h
  exact scanLine_lexeme_length hw

theorem scan_nodup (text : Text) : (scan text).Nodup := by
  apply (scan_pairwise text).imp_of_mem
  rintro s t hs _ hbefore rfl
  have hlength := lexeme_length_of_mem_scan hs
  have hpos := s.kind.width_pos
  rcases hbefore with hlt | ⟨_, hle⟩ <;> omega

/-- The state of the keyword pass in front of line `number`. -/
def stateAt (text : Text) (number : Nat) : ScanState :=
  (scanLines {} 0 ((lines text).take number)).2

def tokensOn (text : Text) (number : Nat) : List Token :=
  (scan text).filter (·.line = number)

def tokensFrom (text : Text) (number : Nat) : List Token :=
  (scanLines (stateAt text number) number ((lines text).drop number)).1

theorem stateAt_succ {text : Text} {number : Nat} {line : Line}
    (h : (lines text)[number]? = some line) :
    stateAt text (number + 1) = (scanLine (stateAt text number) line).2 := by
  rw [stateAt, List.take_add_one, h, Option.toList_some, scanLines_append]
  rfl

@[simp] theorem tokensFrom_zero (text : Text) : tokensFrom text 0 = scan text := rfl

theorem tokensFrom_eq {text : Text} {number : Nat} {line : Line}
    (h : (lines text)[number]? = some line) :
    tokensFrom text number =
      (scanLine (stateAt text number) line).1.map (Word.onLine number) ++
        tokensFrom text (number + 1) := by
  obtain ⟨hlt, heq⟩ := List.getElem?_eq_some_iff.mp h
  rw [tokensFrom, List.drop_eq_getElem_cons hlt, heq, scanLines, tokensFrom, stateAt_succ h]

theorem le_line_of_mem_tokensFrom {text : Text} {number : Nat} {t : Token}
    (h : t ∈ tokensFrom text number) : number ≤ t.line := by
  obtain ⟨i, _, _, w, _, rfl⟩ := mem_scanLines.mp h
  exact Nat.le_add_right number i

theorem tokensOn_eq_filter {text : Text} {start number : Nat} (h : start ≤ number) :
    tokensOn text number = (tokensFrom text start).filter (·.line = number) := by
  induction start with
  | zero => rfl
  | succ start ih =>
    rw [ih (Nat.le_of_succ_le h)]
    cases hline : (lines text)[start]? with
    | none =>
      have hle : (lines text).length ≤ start := List.getElem?_eq_none_iff.mp hline
      rw [tokensFrom, tokensFrom, List.drop_of_length_le hle,
        List.drop_of_length_le (Nat.le_succ_of_le hle)]
      rfl
    | some line =>
      rw [tokensFrom_eq hline, List.filter_append, List.filter_eq_nil_iff.mpr, List.nil_append]
      intro t ht
      obtain ⟨w, _, rfl⟩ := List.mem_map.mp ht
      rw [decide_eq_true_eq]
      exact Nat.ne_of_lt h

theorem tokensOn_eq {text : Text} {number : Nat} {line : Line}
    (h : (lines text)[number]? = some line) :
    tokensOn text number =
      (scanLine (stateAt text number) line).1.map (Word.onLine number) := by
  rw [tokensOn_eq_filter (Nat.le_refl number), tokensFrom_eq h, List.filter_append]
  have hhere : ((scanLine (stateAt text number) line).1.map (Word.onLine number)).filter
      (·.line = number) = (scanLine (stateAt text number) line).1.map (Word.onLine number) := by
    rw [List.filter_eq_self]
    intro t ht
    obtain ⟨w, _, rfl⟩ := List.mem_map.mp ht
    simp [Word.onLine]
  have hlater : (tokensFrom text (number + 1)).filter (·.line = number) = [] := by
    rw [List.filter_eq_nil_iff]
    intro t ht
    have hle := le_line_of_mem_tokensFrom ht
    simp only [decide_eq_true_eq]
    omega
  rw [hhere, hlater, List.append_nil]

theorem tokensFrom_split {text : Text} {number : Nat} (h : number < (lines text).length) :
    tokensFrom text number = tokensOn text number ++ tokensFrom text (number + 1) := by
  have hline := List.getElem?_eq_getElem h
  rw [tokensFrom_eq hline, tokensOn_eq hline]

@[simp] theorem tokensFrom_end {text : Text} {number : Nat} (h : (lines text).length ≤ number) :
    tokensFrom text number = [] := by
  rw [tokensFrom, List.drop_of_length_le h]
  rfl

/-- The keywords of a document are those of its lines, one line after the other. -/
theorem tokensFrom_eq_flatMap (text : Text) {number count : Nat}
    (h : number + count = (lines text).length) :
    tokensFrom text number = (List.range' number count).flatMap (tokensOn text) := by
  induction count generalizing number with
  | zero => exact tokensFrom_end (by omega)
  | succ count ih =>
    rw [tokensFrom_split (by omega), ih (by omega), List.range'_succ, List.flatMap_cons]

/-- The keywords of the first `number` lines. -/
def tokensAbove (text : Text) (number : Nat) : List Token :=
  (List.range' 0 number).flatMap (tokensOn text)

@[simp] theorem tokensAbove_succ (text : Text) (number : Nat) :
    tokensAbove text (number + 1) = tokensAbove text number ++ tokensOn text number := by
  rw [tokensAbove, List.range'_concat, List.flatMap_append, tokensAbove]
  simp

theorem line_of_mem_tokensAbove {text : Text} {number : Nat} {t : Token}
    (h : t ∈ tokensAbove text number) : t.line < number := by
  obtain ⟨n, hn, ht⟩ := List.mem_flatMap.mp h
  have hline : t.line = n := of_decide_eq_true (List.mem_filter.mp ht).2
  have hrange := List.mem_range'_1.mp hn
  omega

theorem scan_eq_above {text : Text} {number : Nat} (h : number ≤ (lines text).length) :
    scan text = tokensAbove text number ++ tokensFrom text number := by
  induction number with
  | zero => rfl
  | succ number ih =>
    rw [ih (by omega), tokensFrom_split (by omega), tokensAbove_succ, List.append_assoc]

end CalcLint
