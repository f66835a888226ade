import CalcLint.Proofs.WholeLines

/-!
# Where a text is broken into lines

A line break is a line feed together with the carriage return directly in front of it, if there is
one. Every text is broken in exactly one way into the lines between its line breaks, and joining
them by these line breaks gives the text back. The lines that the passes work on are these lines,
but for one character: a carriage return at the very end of the text is dropped, although no line
feed follows it.
-/
namespace CalcLint

/-- A line with the line break that ends it. The line break takes a carriage return in front of its
line feed, so none is left in the line. -/
structure EndedLine where
  line : Line
  ending : LineEnding
  no_feed : '\n' ∉ line
  no_return : ending = .lf → line.getLast? ≠ some '\r'

/-- A text broken into lines: those that a line break ends, and the one behind the last line
break. -/
structure Breaking where
  ended : List EndedLine
  last : Line
  no_feed : '\n' ∉ last

namespace EndedLine

/-- The characters of the line and of its line break. -/
def chars (e : EndedLine) : Text :=
  e.line ++ e.ending.chars

/-- What stands between the line feed and the one before it. -/
def piece (e : EndedLine) : Text :=
  match e.ending with
  | .lf => e.line
  | .crlf => e.line ++ ['\r']

@[simp] theorem chars_eq (e : EndedLine) : e.chars = e.piece ++ ['\n'] := by
  unfold chars piece
  cases e.ending <;> simp [LineEnding.chars]

theorem newline_not_mem_piece (e : EndedLine) : '\n' ∉ e.piece := by
  unfold piece
  cases e.ending <;> simp [e.no_feed]

@[simp] theorem chopReturn_piece (e : EndedLine) : chopReturn e.piece = e.line := by
  unfold piece
  cases h : e.ending with
  | lf => exact chopReturn_of_ne (e.no_return h)
  | crlf => exact chopReturn_return e.line

@[simp] theorem getLast?_piece (e : EndedLine) :
    e.piece.getLast? = some '\r' ↔ e.ending = .crlf := by
  unfold piece
  cases h : e.ending with
  | lf => simpa using e.no_return h
  | crlf => simp

/-- Where a piece ends in a carriage return, that belongs to the line break. -/
theorem piece_injective : Function.Injective piece := by
  intro e f h
  have hline : e.line = f.line := by rw [← e.chopReturn_piece, ← f.chopReturn_piece, h]
  have hending : e.ending = f.ending := by
    have hreturn : e.ending = .crlf ↔ f.ending = .crlf := by
      rw [← e.getLast?_piece, ← f.getLast?_piece, h]
    cases he : e.ending <;> cases hf : f.ending <;> simp_all
  cases e
  cases f
  simp_all

theorem exists_piece_eq {piece : Text} (h : '\n' ∉ piece) : ∃ e : EndedLine, e.piece = piece := by
  by_cases hreturn : piece.getLast? = some '\r'
  · obtain ⟨line, rfl⟩ := List.getLast?_eq_some_iff.mp hreturn
    have hline : '\n' ∉ line := fun hmem => h (List.mem_append_left _ hmem)
    exact ⟨⟨line, .crlf, hline, by simp⟩, rfl⟩
  · exact ⟨⟨piece, .lf, h, fun _ => hreturn⟩, rfl⟩

end EndedLine

namespace Breaking

/-- The lines joined by the line breaks between them. -/
def text (b : Breaking) : Text :=
  b.ended.flatMap EndedLine.chars ++ b.last

/-- The lines between the line breaks. -/
def document (b : Breaking) : List Line :=
  b.ended.map EndedLine.line ++ [b.last]

@[simp] theorem splitOn_text (b : Breaking) :
    b.text.splitOn '\n' = b.ended.map EndedLine.piece ++ [b.last] := by
  obtain ⟨ended, last, hlast⟩ := b
  unfold text
  induction ended with
  | nil => exact List.splitOn_eq_singleton hlast
  | cons e more ih =>
    rw [List.flatMap_cons, e.chars_eq, List.append_assoc, List.append_assoc, List.singleton_append,
      List.splitOn_append_cons_self, List.splitOn_eq_singleton e.newline_not_mem_piece, ih]
    rfl

/-- A text is broken in one way only. -/
theorem text_injective : Function.Injective text := by
  intro b b' h
  have hsplit : b.ended.map EndedLine.piece ++ [b.last] =
      b'.ended.map EndedLine.piece ++ [b'.last] := by
    rw [← b.splitOn_text, ← b'.splitOn_text, h]
  obtain ⟨hended, hlast⟩ := List.append_inj' hsplit rfl
  have hended' := List.map_injective_iff.mpr EndedLine.piece_injective hended
  cases b
  cases b'
  simp_all

theorem exists_text_eq_intercalate {pieces : List Text} (hne : pieces ≠ [])
    (hclean : ∀ p ∈ pieces, '\n' ∉ p) : ∃ b : Breaking, b.text = ['\n'].intercalate pieces := by
  induction pieces with
  | nil => contradiction
  | cons piece rest ih =>
    have hpiece : '\n' ∉ piece := hclean piece List.mem_cons_self
    cases rest with
    | nil => exact ⟨⟨[], piece, hpiece⟩, by simp [text]⟩
    | cons next more =>
      obtain ⟨e, rfl⟩ := EndedLine.exists_piece_eq hpiece
      obtain ⟨b, hb⟩ := ih (by simp) (fun p hp => hclean p (List.mem_cons_of_mem _ hp))
      refine ⟨⟨e :: b.ended, b.last, b.no_feed⟩, ?_⟩
      rw [List.intercalate_cons_cons, ← hb, ← e.chars_eq]
      simp [text]

/-- Every text can be broken into lines. -/
theorem exists_text_eq (source : Text) : ∃ b : Breaking, b.text = source := by
  have h := exists_text_eq_intercalate (List.splitOn_ne_nil '\n' source)
    (fun p hp => newline_not_mem_of_mem_splitOn hp)
  rwa [List.intercalate_splitOn] at h

/-- The lines of a text are those between its line breaks, the last one without a carriage return at
its end. -/
@[simp] theorem lines_text (b : Breaking) :
    lines b.text = b.ended.map EndedLine.line ++ [chopReturn b.last] := by
  rw [lines, splitOn_text, List.map_append, List.map_map, List.map_singleton]
  congr 1
  apply List.map_congr_left
  intro e _
  exact e.chopReturn_piece

/-- A line break ends in a line feed, so a carriage return at the end of a text stands in its last
line. -/
@[simp] theorem getLast?_text (b : Breaking) :
    b.text.getLast? = some '\r' ↔ b.last.getLast? = some '\r' := by
  rw [text, List.getLast?_append]
  cases hlast : b.last.getLast? with
  | some c => rw [Option.some_or]
  | none =>
    have hended : (b.ended.flatMap EndedLine.chars).getLast? ≠ some '\r' := by
      obtain hnil | ⟨front, e, hfront⟩ := List.eq_nil_or_concat b.ended
      · simp [hnil]
      · rw [hfront, List.concat_eq_append, List.flatMap_append, List.flatMap_singleton, e.chars_eq,
          ← List.append_assoc, List.getLast?_concat]
        decide
    simpa using hended

end Breaking

/-- Every text is broken in one way, and joining its lines by the line breaks between them gives it
back. The lines that are worked on are these lines, less a carriage return at the end of the last
one; so they are exactly these lines if and only if the text does not end in a carriage return. -/
theorem lines_are_between_breaks_iff (source : Text) :
    ∃ b : Breaking, b.text = source ∧ (∀ b' : Breaking, b'.text = source → b' = b) ∧
      lines source = b.ended.map EndedLine.line ++ [chopReturn b.last] ∧
      (lines source = b.document ↔ source.getLast? ≠ some '\r') := by
  obtain ⟨b, rfl⟩ := Breaking.exists_text_eq source
  refine ⟨b, rfl, fun b' h => Breaking.text_injective h, b.lines_text, ?_⟩
  rw [b.lines_text, Breaking.document, List.append_cancel_left_eq, List.cons.injEq,
    and_iff_left rfl, Ne, b.getLast?_text]
  constructor
  · intro hchop hreturn
    obtain ⟨front, hfront⟩ := List.getLast?_eq_some_iff.mp hreturn
    rw [hfront, chopReturn_return, List.self_eq_append_right] at hchop
    cases hchop
  · exact chopReturn_of_ne

/-- A carriage return that no line feed follows is no line break, yet it is dropped at the end of a
text: the text is one line of two characters, and what is worked on has one. -/
theorem lines_drops_final_return :
    ∃ b : Breaking, b.text = ['a', '\r'] ∧ b.document = [['a', '\r']] ∧
      lines ['a', '\r'] = [['a']] ∧ lines ['a', '\r'] ≠ b.document := by
  exact ⟨⟨[], ['a', '\r'], by decide⟩, rfl, rfl, by decide, by decide⟩

end CalcLint
