import CalcLint.Proofs.KeywordMatch
import CalcLint.Proofs.TokenOrder
import Mathlib.Tactic.SplitIfs

/-!
# Code, comments and strings character by character

A machine with finitely many modes reads a document one character at a time and says of each
character whether it stands in code, in a block comment or in a string. The keyword pass leaps over
comments, strings and keywords; it finds exactly the whole words that the machine sees in code.
-/
namespace CalcLint

/-- Where the next character stands. A slash in code and a star in a comment are remembered, since
the next character may complete a comment mark; so is a backslash in a string. -/
inductive Mode where
  | code
  | slash
  | comment
  | star
  | string
  | escape
  deriving DecidableEq, Repr

namespace Mode

def isCode : Mode → Bool
  | .code => true
  | .slash => true
  | _ => false

def next (m : Mode) (c : Char) : Mode :=
  match m with
  | .code => if c = '/' then .slash else if c = '"' then .string else .code
  | .slash =>
    if c = '*' then .comment else if c = '/' then .slash else if c = '"' then .string else .code
  | .comment => if c = '*' then .star else .comment
  | .star => if c = '/' then .code else if c = '*' then .star else .comment
  | .string => if c = '\\' then .escape else if c = '"' then .code else .string
  | .escape => .string

/-- The mode behind some characters of a line. -/
def after (m : Mode) (chars : Line) : Mode :=
  chars.foldl next m

/-- The mode behind a line break: a comment goes on, a string does not. -/
def atBreak : Mode → Mode
  | .comment => .comment
  | .star => .comment
  | _ => .code

@[simp] theorem after_nil (m : Mode) : m.after [] = m := rfl

@[simp] theorem after_cons (m : Mode) (c : Char) (rest : Line) :
    m.after (c :: rest) = (m.next c).after rest := rfl

@[simp] theorem after_append (m : Mode) (xs ys : Line) :
    m.after (xs ++ ys) = (m.after xs).after ys :=
  List.foldl_append

@[simp] theorem isCode_of_atBreak {m : Mode} (h : m.atBreak = .comment) : m.isCode = false := by
  cases m <;> simp_all [atBreak, isCode]

/-- Letters stand in code and keep to it. -/
theorem next_of_isAlpha {m : Mode} (hm : m.isCode = true) {c : Char} (hc : c.isAlpha = true) :
    m.next c = .code := by
  have h1 : c ≠ '/' := ne_of_class hc (by decide)
  have h2 : c ≠ '"' := ne_of_class hc (by decide)
  have h3 : c ≠ '*' := ne_of_class hc (by decide)
  cases m <;> simp_all [next, isCode]

theorem after_letters {m : Mode} (hm : m.isCode = true) {front : Line} (hne : front ≠ [])
    (h : ∀ c ∈ front, c.isAlpha = true) : m.after front = .code := by
  induction front generalizing m with
  | nil => contradiction
  | cons c rest ih =>
    have hnext : m.next c = .code := next_of_isAlpha hm (h c List.mem_cons_self)
    rw [after_cons, hnext]
    cases rest with
    | nil => rfl
    | cons d more => exact ih rfl (by simp) (fun x hx => h x (List.mem_cons_of_mem c hx))

end Mode

/-- A comment that does not end with the next character. -/
def InComment (m : Mode) (rest : Line) : Prop :=
  m = .comment ∨ m = .star ∧ rest.head? ≠ some '/'

@[simp] theorem InComment.atBreak {m : Mode} {rest : Line} (h : InComment m rest) :
    m.atBreak = .comment := by
  rcases h with rfl | ⟨rfl, _⟩ <;> rfl

@[simp] theorem InComment.next {m : Mode} {c : Char} {rest : Line} (h : InComment m (c :: rest)) :
    m.next c = if c = '*' then .star else .comment := by
  rcases h with rfl | ⟨rfl, hslash⟩
  · rfl
  · have hc : c ≠ '/' := by simpa using hslash
    simp [Mode.next, hc]

theorem InComment.step {m : Mode} {c d : Char} {rest : Line} (h : InComment m (c :: d :: rest))
    (hend : ¬ (c = '*' ∧ d = '/')) : InComment (m.next c) (d :: rest) := by
  rw [h.next]
  split
  · rename_i hc
    right
    refine ⟨rfl, ?_⟩
    simpa using fun hd => hend ⟨hc, hd⟩
  · exact Or.inl rfl

/-- A comment that is still open at the end of the line. -/
theorem after_comment_open {m : Mode} {column : Nat} {rest : Line} (hm : InComment m rest)
    (h : afterComment column rest = none) (k : Nat) :
    (m.after (rest.take k)).atBreak = .comment := by
  fun_induction afterComment column rest generalizing m k with
  | case1 column => simpa using hm.atBreak
  | case2 column c =>
    cases k with
    | zero => exact hm.atBreak
    | succ k =>
      rw [List.take_succ_cons, List.take_nil, Mode.after_cons, hm.next]
      split <;> rfl
  | case3 column c d rest hend => contradiction
  | case4 column c d rest hend ih =>
    cases k with
    | zero => exact hm.atBreak
    | succ k => exact ih (hm.step hend) h k

/-- A comment that ends on the line: it ends with a slash, and behind it is code. -/
theorem after_comment_closed {m : Mode} {column : Nat} {rest : Line} {after : Nat × Line}
    (hm : InComment m rest) (h : afterComment column rest = some after) :
    ∃ front, rest = front ++ after.2 ∧ after.1 = column + front.length ∧
      front.getLast? = some '/' ∧ m.after front = .code ∧
      ∀ k < front.length, (m.after (front.take k)).atBreak = .comment := by
  fun_induction afterComment column rest generalizing m with
  | case1 => contradiction
  | case2 => contradiction
  | case3 column c d rest hend =>
    cases h
    obtain ⟨rfl, rfl⟩ := hend
    have hstar : m.next '*' = .star := hm.next
    refine ⟨['*', '/'], rfl, rfl, rfl, by rw [Mode.after_cons, hstar]; rfl, ?_⟩
    intro k hk
    rcases Nat.lt_succ_iff_lt_or_eq.mp hk with hlt | rfl
    · have hzero : k = 0 := by simpa using hlt
      rw [hzero]
      exact hm.atBreak
    · simp [hstar, Mode.atBreak]
  | case4 column c d rest hend ih =>
    obtain ⟨front, hrest, hcolumn, hlast, hcode, hmodes⟩ := ih (hm.step hend) h
    refine ⟨c :: front, by rw [hrest, List.cons_append], ?_, ?_, hcode, ?_⟩
    · rw [hcolumn, List.length_cons]
      omega
    · rw [List.getLast?_cons, hlast]
      rfl
    · intro k hk
      cases k with
      | zero => exact hm.atBreak
      | succ k => exact hmodes k (by simpa using hk)

/-- A string: behind it is code, unless it takes the rest of the line. -/
theorem after_string (column : Nat) (rest : Line) :
    ∃ front, rest = front ++ (afterString column rest).2 ∧
      (afterString column rest).1 = column + front.length ∧
      (∀ k < front.length, (Mode.string.after (front.take k)).isCode = false) ∧
      ((afterString column rest).2 = [] ∧ (Mode.string.after front).atBreak = .code ∨
        Mode.string.after front = .code ∧ front.getLast? = some '"') := by
  fun_induction afterString column rest with
  | case1 column => exact ⟨[], rfl, rfl, by simp, Or.inl ⟨rfl, rfl⟩⟩
  | case2 column c =>
    refine ⟨[c], rfl, rfl, ?_, Or.inl ⟨rfl, ?_⟩⟩
    · intro k hk
      have hzero : k = 0 := by simpa using hk
      rw [hzero]
      rfl
    · rw [Mode.after_cons, Mode.after_nil, Mode.next]
      split_ifs <;> rfl
  | case3 column d rest ih =>
    obtain ⟨front, hrest, hcolumn, hmodes, hend⟩ := ih
    refine ⟨'\\' :: d :: front, by rw [List.cons_append, List.cons_append, ← hrest], ?_, ?_, ?_⟩
    · rw [hcolumn, List.length_cons, List.length_cons]
      omega
    · intro k hk
      rcases k with _ | _ | k
      · rfl
      · rfl
      · exact hmodes k (by simpa using hk)
    · rcases hend with hend | ⟨hcode, hlast⟩
      · exact Or.inl hend
      · exact Or.inr ⟨hcode, by simp [List.getLast?_cons, hlast]⟩
  | case4 column d rest h =>
    refine ⟨['"'], rfl, rfl, ?_, Or.inr ⟨rfl, rfl⟩⟩
    intro k hk
    have hzero : k = 0 := by simpa using hk
    rw [hzero]
    rfl
  | case5 column c d rest hslash hquote ih =>
    obtain ⟨front, hrest, hcolumn, hmodes, hend⟩ := ih
    have hnext : Mode.string.next c = .string := by simp [Mode.next, hslash, hquote]
    refine ⟨c :: front, by rw [List.cons_append, ← hrest], ?_, ?_, ?_⟩
    · rw [hcolumn, List.length_cons]
      omega
    · intro k hk
      cases k with
      | zero => rfl
      | succ k =>
        rw [List.take_succ_cons, Mode.after_cons, hnext]
        exact hmodes k (by simpa using hk)
    · rw [Mode.after_cons, hnext]
      rcases hend with hend | ⟨hcode, hlast⟩
      · exact Or.inl hend
      · exact Or.inr ⟨hcode, by simp [List.getLast?_cons, hlast]⟩

/-- The keyword, if any, that starts in code `k` characters into `rest`; `before` is the character
in front of `rest`. -/
def keywordAt? (m : Mode) (before : Option Char) (rest : Line) (k : Nat) : Option Keyword :=
  if (m.after (rest.take k)).isCode then
    Keyword.match? ((rest.take k).getLast?.or before) (rest.drop k)
  else none

theorem keywordAt?_append (m : Mode) (before : Option Char) (front rest : Line) (k : Nat) :
    keywordAt? m before (front ++ rest) (front.length + k) =
      keywordAt? (m.after front) (front.getLast?.or before) rest k := by
  rw [keywordAt?, List.take_length_add_append, List.drop_length_add_append, Mode.after_append,
    List.getLast?_append, Option.or_assoc, keywordAt?]

theorem keywordAt?_of_mode {m : Mode} {rest : Line} {k : Nat}
    (h : (m.after (rest.take k)).isCode = false) (before : Option Char) :
    keywordAt? m before rest k = none := by
  rw [keywordAt?, h]
  rfl

theorem keywordAt?_of_not_isAlpha {rest : Line} {k : Nat} {c : Char} (h : rest[k]? = some c)
    (hc : c.isAlpha = false) (m : Mode) (before : Option Char) :
    keywordAt? m before rest k = none := by
  obtain ⟨hlt, heq⟩ := List.getElem?_eq_some_iff.mp h
  rw [keywordAt?, List.drop_eq_getElem_cons hlt, heq, Keyword.match?_of_not_isAlpha hc, ite_self]

/-- A word that starts `k` characters into `rest`, which itself starts at `column`. -/
def FoundAt (m : Mode) (before : Option Char) (column : Nat) (rest : Line) (w : Word) (k : Nat) :
    Prop :=
  keywordAt? m before rest k = some w.kind ∧ w.column = column + k ∧
    w.lexeme = (rest.drop k).take w.kind.width

/-- The words that stand in `rest`, and the mode behind it. -/
structure Scanned (m : Mode) (before : Option Char) (column : Nat) (rest : Line)
    (result : List Word × ScanState) : Prop where
  words : ∀ w, w ∈ result.1 ↔ ∃ k, FoundAt m before column rest w k
  mode : (m.after rest).atBreak = if result.2.inComment then .comment else .code

section
variable {m : Mode} {before : Option Char} {column : Nat} {front rest : Line}
  {result : List Word × ScanState}

theorem foundAt_append {w : Word} {k : Nat} :
    FoundAt m before column (front ++ rest) w (front.length + k) ↔
      FoundAt (m.after front) (front.getLast?.or before) (column + front.length) rest w k := by
  rw [FoundAt, keywordAt?_append, List.drop_length_add_append, ← Nat.add_assoc, FoundAt]

/-- A word stands in the front or in the rest. -/
theorem exists_foundAt_append {w : Word} :
    (∃ k, FoundAt m before column (front ++ rest) w k) ↔
      (∃ k < front.length, FoundAt m before column (front ++ rest) w k) ∨
        ∃ k, FoundAt (m.after front) (front.getLast?.or before) (column + front.length) rest w k := by
  constructor
  · rintro ⟨k, hk⟩
    rcases Nat.lt_or_ge k front.length with hlt | hge
    · exact Or.inl ⟨k, hlt, hk⟩
    · obtain ⟨j, rfl⟩ := Nat.exists_eq_add_of_le hge
      exact Or.inr ⟨j, foundAt_append.mp hk⟩
  · rintro (⟨k, _, hk⟩ | ⟨k, hk⟩)
    · exact ⟨k, hk⟩
    · exact ⟨front.length + k, foundAt_append.mpr hk⟩

theorem Scanned.nil {state : ScanState}
    (h : m.atBreak = if state.inComment then .comment else .code) :
    Scanned m before column [] ([], state) where
  words w := by simp [FoundAt, keywordAt?]
  mode := h

/-- At the end of a line only the mode counts. -/
theorem Scanned.of_nil {m' : Mode} {before' : Option Char}
    (h : Scanned m before column [] result) (hbreak : m'.atBreak = m.atBreak) :
    Scanned m' before' column [] result where
  words w := by
    rw [h.words]
    simp [FoundAt, keywordAt?]
  mode := hbreak.trans h.mode

/-- What holds no keyword is passed over. -/
theorem Scanned.skip (hfront : ∀ k < front.length, keywordAt? m before (front ++ rest) k = none)
    (h : Scanned (m.after front) (front.getLast?.or before) (column + front.length) rest result) :
    Scanned m before column (front ++ rest) result where
  words w := by
    rw [h.words, exists_foundAt_append, or_iff_right]
    rintro ⟨k, hlt, hk, _⟩
    rw [hfront k hlt] at hk
    contradiction
  mode := by rw [Mode.after_append, h.mode]

/-- A keyword is found and passed over. -/
theorem Scanned.keyword {kind : Keyword} (hlength : front.length = kind.width)
    (hzero : keywordAt? m before (front ++ rest) 0 = some kind)
    (hfront : ∀ k < front.length, k ≠ 0 → keywordAt? m before (front ++ rest) k = none)
    (h : Scanned (m.after front) (front.getLast?.or before) (column + front.length) rest result) :
    Scanned m before column (front ++ rest) (⟨kind, column, front⟩ :: result.1, result.2) where
  words w := by
    have hlexeme : ((front ++ rest).drop 0).take kind.width = front := by
      rw [List.drop_zero, ← hlength, List.take_left]
    rw [List.mem_cons, h.words, exists_foundAt_append]
    apply or_congr_left
    constructor
    · rintro rfl
      exact ⟨0, hlength ▸ kind.width_pos, hzero, rfl, hlexeme.symm⟩
    · rintro ⟨k, hlt, hk, hcolumn, hlex⟩
      by_cases hpos : k = 0
      · subst hpos
        have hkind : w.kind = kind := Option.some.inj (hk.symm.trans hzero)
        rw [hkind, hlexeme] at hlex
        obtain ⟨kind', column', lexeme'⟩ := w
        cases hkind
        cases hcolumn
        cases hlex
        rfl
      · rw [hfront k hlt hpos] at hk
        contradiction
  mode := by rw [Mode.after_append, h.mode]

end

/-- Code in front of which no comment mark is half read. -/
def Ready (m : Mode) (rest : Line) : Prop :=
  m = .code ∨ m = .slash ∧ rest.head? ≠ some '*'

@[simp] theorem Ready.isCode {m : Mode} {rest : Line} (h : Ready m rest) : m.isCode = true := by
  rcases h with rfl | ⟨rfl, _⟩ <;> rfl

@[simp] theorem Ready.next {m : Mode} {c : Char} {rest : Line} (h : Ready m (c :: rest)) :
    m.next c = Mode.code.next c := by
  rcases h with rfl | ⟨rfl, hstar⟩
  · rfl
  · have hc : c ≠ '*' := by simpa using hstar
    simp [Mode.next, hc]

theorem Ready.step {m : Mode} {c : Char} {rest : Line} (h : Ready m (c :: rest))
    (hopen : opensComment (c :: rest) = false) (hquote : c ≠ '"') : Ready (m.next c) rest := by
  rw [h.next]
  by_cases hc : c = '/'
  · right
    refine ⟨by simp [Mode.next, hc], ?_⟩
    intro hstar
    obtain ⟨more, rfl⟩ : ∃ more, rest = '*' :: more := by
      cases rest with
      | nil => contradiction
      | cons d more => exact ⟨more, by rw [Option.some.inj hstar]⟩
    rw [hc, opensComment_mark] at hopen
    contradiction
  · left
    simp [Mode.next, hc, hquote]

@[simp] theorem Ready.after_mark {m : Mode} {tail : Line} (h : Ready m ('/' :: '*' :: tail))
    (inner : Line) :
    m.after ('/' :: '*' :: inner) = Mode.comment.after inner := by
  rw [Mode.after_cons, Mode.after_cons, h.next]
  rfl

/-- No keyword stands in a comment or in its marks. -/
theorem keywordAt?_comment {m : Mode} {inner tail : Line} (h : Ready m ('/' :: '*' :: (inner ++ tail)))
    (hmodes : ∀ k < inner.length, (Mode.comment.after (inner.take k)).atBreak = .comment)
    (before : Option Char) :
    ∀ k < ('/' :: '*' :: inner).length,
      keywordAt? m before ('/' :: '*' :: inner ++ tail) k = none := by
  intro k hk
  rcases k with _ | _ | k
  · exact keywordAt?_of_not_isAlpha rfl (by decide) m before
  · exact keywordAt?_of_not_isAlpha rfl (by decide) m before
  · have hlt : k < inner.length := by simpa using hk
    apply keywordAt?_of_mode
    rw [List.cons_append, List.cons_append, List.take_succ_cons, List.take_succ_cons, h.after_mark,
      List.take_append_of_le_length (Nat.le_of_lt hlt)]
    exact Mode.isCode_of_atBreak (hmodes k hlt)

/-- No keyword stands in a string or in its marks. -/
theorem keywordAt?_string {m : Mode} {inner tail : Line} (h : Ready m ('"' :: (inner ++ tail)))
    (hmodes : ∀ k < inner.length, (Mode.string.after (inner.take k)).isCode = false)
    (before : Option Char) :
    ∀ k < ('"' :: inner).length, keywordAt? m before ('"' :: inner ++ tail) k = none := by
  intro k hk
  rcases k with _ | k
  · exact keywordAt?_of_not_isAlpha rfl (by decide) m before
  · have hlt : k < inner.length := by simpa using hk
    apply keywordAt?_of_mode
    rw [List.cons_append, List.take_succ_cons, Mode.after_cons, h.next,
      List.take_append_of_le_length (Nat.le_of_lt hlt)]
    exact hmodes k hlt

/-- Inside a word no keyword starts. -/
theorem keywordAt?_letters {front tail : Line} (h : ∀ c ∈ front, c.isAlpha = true) (m : Mode)
    (before : Option Char) :
    ∀ k < front.length, k ≠ 0 → keywordAt? m before (front ++ tail) k = none := by
  intro k hlt hpos
  have htake : (front ++ tail).take k = front.take k :=
    List.take_append_of_le_length (Nat.le_of_lt hlt)
  have hne : front.take k ≠ [] := by
    rw [Ne, ← List.length_eq_zero_iff, List.length_take]
    omega
  obtain ⟨c, hc⟩ : ∃ c, (front.take k).getLast? = some c :=
    ⟨_, List.getLast?_eq_some_getLast hne⟩
  have hword : isWordChar c = true :=
    isWordChar_of_isAlpha (h c (List.mem_of_mem_take (List.mem_of_getLast? hc)))
  rw [keywordAt?, htake, hc, Option.some_or, Keyword.match?, Option.any_some, if_pos hword,
    ite_self]

section
variable {m : Mode} {before : Option Char} {column : Nat} {c : Char} {tail : Line}
  {result : List Word × ScanState}

theorem Scanned.openComment (hm : Ready m ('/' :: '*' :: tail))
    (hnone : afterComment (column + 2) tail = none) :
    Scanned m before column ('/' :: '*' :: tail) ([], ⟨true⟩) := by
  have hmodes := after_comment_open (Or.inl rfl) hnone
  rw [← List.append_nil ('/' :: '*' :: tail)]
  apply Scanned.skip
  · exact keywordAt?_comment (by rwa [List.append_nil]) (fun k _ => hmodes k) before
  · apply Scanned.nil
    have hend := hmodes tail.length
    rw [List.take_length] at hend
    rw [hm.after_mark, hend]
    rfl

theorem Scanned.comment (hm : Ready m ('/' :: '*' :: tail)) {after : Nat × Line}
    (hsome : afterComment (column + 2) tail = some after)
    (h : Scanned .code (some '/') after.1 after.2 result) :
    Scanned m before column ('/' :: '*' :: tail) result := by
  obtain ⟨inner, htail, hcolumn, hlast, hcode, hmodes⟩ := after_comment_closed (Or.inl rfl) hsome
  have hstart : ('/' :: '*' :: inner).getLast?.or before = some '/' := by
    simp [List.getLast?_cons, hlast]
  have hplace : column + ('/' :: '*' :: inner).length = after.1 := by
    rw [hcolumn, List.length_cons, List.length_cons]
    omega
  rw [htail] at hm ⊢
  rw [← List.cons_append, ← List.cons_append]
  apply Scanned.skip (keywordAt?_comment hm hmodes before)
  rw [hm.after_mark, hcode, hstart, hplace]
  exact h

theorem Scanned.string (hm : Ready m ('"' :: tail))
    (h : Scanned .code (some '"') (afterString (column + 1) tail).1
      (afterString (column + 1) tail).2 result) :
    Scanned m before column ('"' :: tail) result := by
  obtain ⟨inner, htail, hcolumn, hmodes, hend⟩ := after_string (column + 1) tail
  have hplace : column + ('"' :: inner).length = (afterString (column + 1) tail).1 := by
    rw [hcolumn, List.length_cons]
    omega
  have hready : Ready m ('"' :: (inner ++ (afterString (column + 1) tail).2)) := htail ▸ hm
  have hmode : m.after ('"' :: inner) = Mode.string.after inner := by
    rw [Mode.after_cons, hm.next]
    rfl
  have hskip := @Scanned.skip m before column ('"' :: inner) (afterString (column + 1) tail).2
    result (keywordAt?_string hready hmodes before)
  rw [List.cons_append, ← htail, hmode, hplace] at hskip
  apply hskip
  rcases hend with ⟨hnil, hbreak⟩ | ⟨hcode, hlast⟩
  · rw [hnil] at h ⊢
    exact h.of_nil hbreak
  · have hstart : ('"' :: inner).getLast?.or before = some '"' := by
      simp [List.getLast?_cons, hlast]
    rw [hcode, hstart]
    exact h

theorem Scanned.matched {k : Keyword} (hm : Ready m (c :: tail))
    (hk : Keyword.match? before (c :: tail) = some k)
    (h : Scanned .code ((c :: tail).take k.width).getLast? (column + k.width)
      ((c :: tail).drop k.width) result) :
    Scanned m before column (c :: tail)
      (⟨k, column, (c :: tail).take k.width⟩ :: result.1, result.2) := by
  have hletters : ∀ x ∈ (c :: tail).take k.width, x.isAlpha = true :=
    fun x hx => Keyword.isAlpha_of_begins (Keyword.begins_of_match? hk) hx
  have hlength : ((c :: tail).take k.width).length = k.width :=
    List.length_take_of_le (Keyword.width_le_of_begins (Keyword.begins_of_match? hk))
  have hne : (c :: tail).take k.width ≠ [] := by
    rw [Ne, ← List.length_eq_zero_iff, hlength]
    exact Nat.ne_of_gt k.width_pos
  have hlast : ((c :: tail).take k.width).getLast?.or before =
      ((c :: tail).take k.width).getLast? := by
    rw [List.getLast?_eq_some_getLast hne, Option.some_or]
  have hkeyword := @Scanned.keyword m before column ((c :: tail).take k.width)
    ((c :: tail).drop k.width) result k hlength
  rw [List.take_append_drop, hlast, hlength, Mode.after_letters hm.isCode hne hletters] at hkeyword
  apply hkeyword
  · rw [keywordAt?, List.take_zero, Mode.after_nil, hm.isCode, if_pos rfl, List.getLast?_nil,
      Option.none_or, List.drop_zero, hk]
  · have hinside := @keywordAt?_letters _ ((c :: tail).drop k.width) hletters m before
    rwa [List.take_append_drop, hlength] at hinside
  · exact h

theorem Scanned.other (hk : Keyword.match? before (c :: tail) = none)
    (h : Scanned (m.next c) (some c) (column + 1) tail result) :
    Scanned m before column (c :: tail) result := by
  rw [← List.singleton_append]
  apply Scanned.skip
  · intro k hlt
    have hzero : k = 0 := by simpa using hlt
    rw [hzero, keywordAt?, List.take_zero, List.getLast?_nil, Option.none_or, List.drop_zero,
      List.singleton_append, hk, ite_self]
  · exact h

end

/-- The keyword pass over code finds the keywords that stand there. -/
theorem scanCode_scanned {m : Mode} {rest : Line} (hm : Ready m rest) (before : Option Char)
    (column : Nat) : Scanned m before column rest (scanCode before column rest) := by
  induction before, column, rest using scanCode_induction generalizing m with
  | nil before column =>
    rw [scanCode_nil]
    apply Scanned.nil
    rcases hm with rfl | ⟨rfl, _⟩ <;> rfl
  | opened before column tail hnone =>
    rw [scanCode_open hnone]
    exact Scanned.openComment hm hnone
  | comment before column tail after hsome ih =>
    rw [scanCode_comment hsome]
    exact Scanned.comment hm hsome (ih (Or.inl rfl))
  | string before column tail ih =>
    rw [scanCode_string]
    exact Scanned.string hm (ih (Or.inl rfl))
  | keyword before column c tail k hopen hquote hk ih =>
    rw [scanCode_keyword hopen hquote hk]
    exact Scanned.matched hm hk (ih (Or.inl rfl))
  | other before column c tail hopen hquote hk ih =>
    rw [scanCode_other hopen hquote hk]
    exact Scanned.other hk (ih (hm.step hopen hquote))

/-- The mode in front of a line. -/
def ScanState.mode (state : ScanState) : Mode :=
  if state.inComment then .comment else .code

theorem scanLine_scanned (state : ScanState) (line : Line) :
    Scanned state.mode none 0 line (scanLine state line) := by
  unfold scanLine ScanState.mode
  split
  · cases hafter : afterComment 0 line with
    | none =>
      have hmodes := after_comment_open (Or.inl rfl) hafter
      rw [← List.append_nil line]
      apply Scanned.skip
      · intro k _
        apply keywordAt?_of_mode
        rw [List.append_nil]
        exact Mode.isCode_of_atBreak (hmodes k)
      · apply Scanned.nil
        have hend := hmodes line.length
        rw [List.take_length] at hend
        rw [hend]
        rfl
    | some after =>
      obtain ⟨front, hline, hcolumn, hlast, hcode, hmodes⟩ :=
        after_comment_closed (Or.inl rfl) hafter
      have hskip := @Scanned.skip .comment none 0 front after.2
        (scanCode (some '/') after.1 after.2)
      rw [hlast, hcode, ← hcolumn, ← hline] at hskip
      apply hskip
      · intro k hlt
        apply keywordAt?_of_mode
        rw [hline, List.take_append_of_le_length (Nat.le_of_lt hlt)]
        exact Mode.isCode_of_atBreak (hmodes k hlt)
      · exact scanCode_scanned (Or.inl rfl) (some '/') after.1
  · exact scanCode_scanned (Or.inl rfl) none 0

/-- The mode in front of line `number` of a document. -/
def modeAtLine (text : Text) (number : Nat) : Mode :=
  ((lines text).take number).foldl (fun m line => (m.after line).atBreak) .code

theorem modeAtLine_eq (text : Text) (number : Nat) :
    modeAtLine text number = (stateAt text number).mode := by
  induction number with
  | zero => rfl
  | succ number ih =>
    cases hline : (lines text)[number]? with
    | none =>
      have hsame : (lines text).take (number + 1) = (lines text).take number := by
        rw [List.take_add_one, hline, Option.toList_none, List.append_nil]
      rw [modeAtLine, hsame, stateAt, hsame]
      exact ih
    | some line =>
      rw [stateAt_succ hline, modeAtLine, List.take_add_one, hline, Option.toList_some,
        List.foldl_append]
      show ((modeAtLine text number).after line).atBreak = _
      rw [ih, (scanLine_scanned (stateAt text number) line).mode]
      rfl

/-- A token that spells its keyword, in whatever letter case, as a whole word in the code of a
line; `m` is the mode in front of the line. -/
structure WholeWord (m : Mode) (line : Line) (t : Token) : Prop where
  code : (m.after (line.take t.column)).isCode = true
  lexeme : t.lexeme = (line.drop t.column).take t.kind.width
  ascii : ∀ c ∈ t.lexeme, c.toNat < 128
  spelling : t.lexeme.map Char.toUpper = t.kind.spelling
  before : ∀ c, (line.take t.column).getLast? = some c → isWordChar c = false
  behind : ∀ c, (line.drop (t.column + t.kind.width)).head? = some c → isWordChar c = false

theorem wholeWord_iff {m : Mode} {line : Line} {t : Token} :
    WholeWord m line t ↔
      keywordAt? m none line t.column = some t.kind ∧
        t.lexeme = (line.drop t.column).take t.kind.width := by
  have hbefore : ∀ o : Option Char, o.any isWordChar = false ↔
      ∀ c, o = some c → isWordChar c = false := by
    intro o
    cases o <;> simp
  have hbegins := @Keyword.begins_iff t.kind (line.drop t.column)
  rw [List.getElem?_drop, ← List.head?_drop] at hbegins
  constructor
  · rintro ⟨hcode, hlexeme, _, hspelling, hfront, hbehind⟩
    refine ⟨?_, hlexeme⟩
    rw [keywordAt?, hcode, if_pos rfl, Option.or_none, Keyword.match?_eq_some_iff, hbefore, hbegins,
      ← hlexeme]
    exact ⟨hfront, hspelling, hbehind⟩
  · rintro ⟨hkeyword, hlexeme⟩
    unfold keywordAt? at hkeyword
    split at hkeyword
    · rename_i hcode
      rw [Option.or_none, Keyword.match?_eq_some_iff, hbefore] at hkeyword
      obtain ⟨hfront, hword⟩ := hkeyword
      obtain ⟨hspelling, hbehind⟩ := hbegins.mp hword
      refine ⟨hcode, hlexeme, ?_, hlexeme ▸ hspelling, hfront, hbehind⟩
      intro c hc
      rw [hlexeme] at hc
      have hbounds := toNat_of_isWordChar
        (isWordChar_of_isAlpha (Keyword.isAlpha_of_begins hword hc))
      omega
    · contradiction

theorem mem_scan_iff {text : Text} {t : Token} :
    t ∈ scan text ↔ ∃ line, (lines text)[t.line]? = some line ∧
      WholeWord (modeAtLine text t.line) line t := by
  have hfound : ∀ (number : Nat) (line : Line) (w : Word),
      w ∈ (scanLine (stateAt text number) line).1 ↔
        WholeWord (modeAtLine text number) line (w.onLine number) := by
    intro number line w
    rw [(scanLine_scanned (stateAt text number) line).words, wholeWord_iff, modeAtLine_eq]
    constructor
    · rintro ⟨k, hk, hcolumn, hlexeme⟩
      rw [Nat.zero_add] at hcolumn
      subst hcolumn
      exact ⟨hk, hlexeme⟩
    · rintro ⟨hk, hlexeme⟩
      exact ⟨w.column, hk, (Nat.zero_add _).symm, hlexeme⟩
  rw [scan, mem_scanLines]
  constructor
  · rintro ⟨number, line, hline, w, hw, rfl⟩
    rw [Nat.zero_add]
    exact ⟨line, hline, (hfound number line w).mp hw⟩
  · rintro ⟨line, hline, hword⟩
    refine ⟨t.line, line, hline, ⟨t.kind, t.column, t.lexeme⟩, ?_, ?_⟩
    · exact (hfound t.line line ⟨t.kind, t.column, t.lexeme⟩).mpr hword
    · rw [Nat.zero_add]
      rfl

/-- The keyword pass lists the whole-word keywords in code: in reading order, without overlap, and
none is left out. -/
theorem scan_lists_keywords (text : Text) :
    (scan text).Pairwise (fun s t => s.line < t.line ∨ s.line = t.line ∧ s.column < t.column) ∧
    (scan text).Pairwise (fun s t => s.line = t.line → s.column + s.lexeme.length ≤ t.column) ∧
    ∀ t, t ∈ scan text ↔ ∃ line, (lines text)[t.line]? = some line ∧
      WholeWord (modeAtLine text t.line) line t := by
  refine ⟨?_, ?_, fun t => mem_scan_iff⟩
  · apply (scan_pairwise text).imp_of_mem
    intro s t hs _ hbefore
    have hlength := lexeme_length_of_mem_scan hs
    have hpos := s.kind.width_pos
    rcases hbefore with hlt | ⟨hsame, hle⟩
    · exact Or.inl hlt
    · exact Or.inr ⟨hsame, by omega⟩
  · apply (scan_pairwise text).imp
    intro s t hbefore hsame
    rcases hbefore with hlt | ⟨_, hle⟩
    · omega
    · exact hle

end CalcLint
