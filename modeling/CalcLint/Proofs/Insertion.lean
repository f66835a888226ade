import CalcLint.Edit

/-!
# Edits as simultaneous insertion

Edits are sorted by offset and woven into the text. The result has a description that mentions no
order of work: in front of every offset of the original text stands what the edits at that offset
insert. From offsets the description passes to positions, and the edits act on every piece between
two line feeds by itself.
-/
namespace CalcLint

/-- The text from offset `start` on, with `gap o` in front of the character at each offset `o` and
behind the last one. -/
def spread (gap : Nat → Text) (start : Nat) : Text → Text
  | [] => gap start
  | c :: rest => gap start ++ c :: spread gap (start + 1) rest

theorem spread_congr {gap gap' : Nat → Text} {start : Nat} {text : Text}
    (h : ∀ o, start ≤ o → o ≤ start + text.length → gap o = gap' o) :
    spread gap start text = spread gap' start text := by
  induction text generalizing start with
  | nil => exact h start (Nat.le_refl _) (by simp)
  | cons c rest ih =>
    have hrest : spread gap (start + 1) rest = spread gap' (start + 1) rest := by
      apply ih
      intro o hlo hhi
      exact h o (by omega) (by simp only [List.length_cons]; omega)
    rw [spread, spread, h start (Nat.le_refl _) (by omega), hrest]

theorem spread_shift (gap : Nat → Text) (base start : Nat) (text : Text) :
    spread gap (base + start) text = spread (fun o => gap (base + o)) start text := by
  induction text generalizing start with
  | nil => rfl
  | cons c rest ih => rw [spread, spread, Nat.add_assoc, ih]

/-- Where nothing is inserted the text stays as it is. -/
theorem spread_append {gap : Nat → Text} {start : Nat} {xs : Text} (ys : Text)
    (h : ∀ o, start ≤ o → o < start + xs.length → gap o = []) :
    spread gap start (xs ++ ys) = xs ++ spread gap (start + xs.length) ys := by
  induction xs generalizing start with
  | nil => rfl
  | cons c rest ih =>
    have hrest : spread gap (start + 1) (rest ++ ys) =
        rest ++ spread gap (start + 1 + rest.length) ys := by
      apply ih
      intro o hlo hhi
      exact h o (by omega) (by simp only [List.length_cons]; omega)
    have hlen : start + (c :: rest).length = start + 1 + rest.length := by
      simp only [List.length_cons]; omega
    rw [List.cons_append, spread, h start (Nat.le_refl _) (by omega), hrest, hlen]
    rfl

theorem spread_of_empty {gap : Nat → Text} {start : Nat} {text : Text}
    (h : ∀ o, start ≤ o → o ≤ start + text.length → gap o = []) :
    spread gap start text = text := by
  have hfront : spread gap start (text ++ []) = text ++ spread gap (start + text.length) [] :=
    spread_append [] (fun o hlo hhi => h o hlo (by omega))
  rw [List.append_nil] at hfront
  rw [hfront, spread, h _ (by omega) (Nat.le_refl _), List.append_nil]

/-- A piece inserted at the front comes before everything else. -/
theorem spread_front {gap gap' : Nat → Text} {start : Nat} {front : Text} (text : Text)
    (hstart : gap start = front ++ gap' start) (hrest : ∀ o, start < o → gap o = gap' o) :
    spread gap start text = front ++ spread gap' start text := by
  cases text with
  | nil => exact hstart
  | cons c rest =>
    have h : spread gap (start + 1) rest = spread gap' (start + 1) rest :=
      spread_congr (fun o hlo _ => hrest o (by omega))
    rw [spread, spread, hstart, h, List.append_assoc]

/-- A piece inserted in one place only. -/
theorem spread_at (piece xs ys : Text) :
    spread (fun o => if o = xs.length then piece else []) 0 (xs ++ ys) = xs ++ (piece ++ ys) := by
  let gap := fun o => if o = xs.length then piece else []
  have hnone : spread (fun _ => []) xs.length ys = ys := spread_of_empty (fun _ _ _ => rfl)
  have hhere : gap xs.length = piece ++ [] := by simp [gap]
  have hlater : ∀ o, xs.length < o → gap o = [] := fun o ho => if_neg (by omega)
  rw [spread_append ys (fun o _ ho => if_neg (by omega)), Nat.zero_add]
  show xs ++ spread gap xs.length ys = _
  rw [spread_front ys hhere hlater, hnone]

/-- A line feed separates what is inserted before it from what is inserted after it. -/
theorem spread_break (gap : Nat → Text) (start : Nat) (xs ys : Text) (c : Char) :
    spread gap start (xs ++ c :: ys) =
      spread gap start xs ++ c :: spread gap (start + xs.length + 1) ys := by
  induction xs generalizing start with
  | nil => rfl
  | cons x rest ih =>
    have hlen : start + (x :: rest).length + 1 = start + 1 + rest.length + 1 := by
      simp only [List.length_cons]; omega
    rw [List.cons_append, spread, ih, spread, hlen]
    simp

/-- Weaving pieces that are sorted by offset is spreading them. -/
theorem weave_eq_spread {pieces : List (Nat × Text)} {start : Nat} {text : Text}
    (hsorted : pieces.Pairwise (fun a b => a.1 ≤ b.1))
    (hlo : ∀ p ∈ pieces, start ≤ p.1) (hhi : ∀ p ∈ pieces, p.1 ≤ start + text.length) :
    weave start pieces text =
      spread (fun o => (pieces.filter (·.1 = o)).flatMap (·.2)) start text := by
  induction pieces generalizing start text with
  | nil => exact (spread_of_empty (fun _ _ _ => rfl)).symm
  | cons head more ih =>
    obtain ⟨offset, piece⟩ := head
    obtain ⟨hle, hmore⟩ := List.pairwise_cons.mp hsorted
    have hoff : start ≤ offset := hlo _ List.mem_cons_self
    have hend : offset ≤ start + text.length := hhi _ List.mem_cons_self
    have hcut : offset = start + (text.take (offset - start)).length := by
      rw [List.length_take]; omega
    have hbefore : ∀ o, start ≤ o → o < start + (text.take (offset - start)).length →
        (((offset, piece) :: more).filter (·.1 = o)).flatMap (·.2) = [] := by
      intro o _ ho
      rw [List.filter_eq_nil_iff.mpr, List.flatMap_nil]
      intro p hp
      have hge : offset ≤ p.1 := by
        rcases List.mem_cons.mp hp with rfl | hp
        · exact Nat.le_refl _
        · exact hle p hp
      simp only [decide_eq_true_eq]
      omega
    have htail := @ih offset (text.drop (offset - start)) hmore (fun p hp => hle p hp) (by
      intro p hp
      have := hhi p (List.mem_cons_of_mem _ hp)
      rw [List.length_drop]
      omega)
    have hfront : spread (fun o => (((offset, piece) :: more).filter (·.1 = o)).flatMap (·.2))
        offset (text.drop (offset - start)) =
          piece ++ weave offset more (text.drop (offset - start)) := by
      rw [htail]
      apply spread_front
      · simp
      · intro o ho
        have hne : ¬ offset = o := by omega
        simp [hne]
    have hsplit := spread_append (text.drop (offset - start)) hbefore
    rw [List.take_append_drop, ← hcut, hfront] at hsplit
    rw [hsplit, weave]

/-- A stable sort keeps the items of one key in their order. -/
theorem filter_mergeSort_key {β : Type} (key : β → Nat) (items : List β) (k : Nat) :
    (items.mergeSort fun a b => decide (key a ≤ key b)).filter (key · = k) =
      items.filter (key · = k) := by
  have hsub : (items.filter (key · = k)).Sublist
      (items.mergeSort fun a b => decide (key a ≤ key b)) := by
    apply List.sublist_mergeSort
    · intro a b c hab hbc
      simp only [decide_eq_true_eq] at *
      omega
    · intro a b
      simp only [Bool.or_eq_true, decide_eq_true_eq]
      omega
    · apply List.Pairwise.imp_of_mem _ (List.pairwise_of_forall (fun _ _ => trivial))
      intro a b ha hb _
      simp only [List.mem_filter, decide_eq_true_eq] at ha hb
      simp only [decide_eq_true_eq]
      omega
    · exact List.filter_sublist
  have hfilter := hsub.filter (key · = k)
  rw [List.filter_filter] at hfilter
  simp only [Bool.and_self] at hfilter
  apply (hfilter.eq_of_length _).symm
  exact ((List.mergeSort_perm items _).filter _).length_eq.symm

/-- What the edits insert at an offset. -/
def insertedAt (text : Text) (edits : List Edit) (offset : Nat) : Text :=
  (edits.filter fun e =>
    offsetOf (lineStarts text).toArray text.length e.position = offset).flatMap (·.newText)

theorem offsetOf_le (starts : Array Nat) (length : Nat) (p : Position) :
    offsetOf starts length p ≤ length := by
  unfold offsetOf
  split
  · exact Nat.le_refl _
  · exact Nat.min_le_right _ _

/-- Insertions come in increasing order of offsets. -/
theorem insertions_pairwise (text : Text) (edits : List Edit) :
    (insertions text edits).Pairwise (fun a b => a.1 ≤ b.1) := by
  have h := @List.pairwise_mergeSort _ (fun a b : Nat × Text => decide (a.1 ≤ b.1))
    (fun a b c hab hbc => by simp only [decide_eq_true_eq] at *; omega)
    (fun a b => by simp only [Bool.or_eq_true, decide_eq_true_eq]; omega)
    (edits.map fun e =>
      (offsetOf (lineStarts text).toArray text.length e.position, e.newText))
  simpa only [insertions, decide_eq_true_eq] using h

theorem offset_le_of_mem_insertions {text : Text} {edits : List Edit} {p : Nat × Text}
    (h : p ∈ insertions text edits) : p.1 ≤ text.length := by
  simp only [insertions, List.mem_mergeSort, List.mem_map] at h
  obtain ⟨e, _, rfl⟩ := h
  exact offsetOf_le _ _ _

/-- Sorting the insertions changes their order only. -/
theorem map_snd_insertions_perm (text : Text) (edits : List Edit) :
    ((insertions text edits).map Prod.snd).Perm (edits.map Edit.newText) := by
  have h := (List.mergeSort_perm (edits.map fun e =>
    (offsetOf (lineStarts text).toArray text.length e.position, e.newText))
      fun a b => decide (a.1 ≤ b.1)).map Prod.snd
  rwa [List.map_map] at h

@[simp] theorem applyEdits_nil (text : Text) : applyEdits text [] = text := by
  simp [applyEdits, insertions, weave]

/-- Applying edits is inserting at every offset, all at once. -/
theorem applyEdits_eq_spread (text : Text) (edits : List Edit) :
    applyEdits text edits = spread (insertedAt text edits) 0 text := by
  have hkey : ∀ o, ((insertions text edits).filter (·.1 = o)).flatMap (·.2) =
      insertedAt text edits o := by
    intro o
    rw [insertions, filter_mergeSort_key Prod.fst, List.filter_map, List.flatMap_map]
    rfl
  rw [applyEdits, weave_eq_spread (insertions_pairwise text edits)]
  · exact spread_congr (fun o _ _ => hkey o)
  · intro p _
    exact Nat.zero_le _
  · intro p hp
    rw [Nat.zero_add]
    exact offset_le_of_mem_insertions hp

theorem newline_not_mem_of_mem_splitOn {text piece : Text} (h : piece ∈ text.splitOn '\n') :
    '\n' ∉ piece := by
  induction text generalizing piece with
  | nil => simp_all
  | cons c rest ih =>
    obtain ⟨head, tail, hsplit⟩ := List.exists_cons_of_ne_nil (List.splitOn_ne_nil '\n' rest)
    rw [List.splitOn_cons_eq_if_modifyHead, hsplit] at h
    rw [hsplit] at ih
    by_cases hc : c = '\n'
    · simp only [hc, beq_self_eq_true, if_true, List.mem_cons] at h
      rcases h with rfl | h
      · simp
      · exact ih (List.mem_cons.mpr h)
    · simp only [beq_iff_eq, hc, if_false, List.modifyHead_cons, List.mem_cons] at h
      rcases h with rfl | h
      · simp only [List.mem_cons, not_or]
        exact ⟨fun heq => hc heq.symm, ih List.mem_cons_self⟩
      · exact ih (List.mem_cons_of_mem _ h)

/-- The offset at which piece number `j` starts, when a line feed follows each piece. -/
def pieceStart : List Text → Nat → Nat
  | _, 0 => 0
  | [], _ + 1 => 0
  | piece :: rest, j + 1 => piece.length + 1 + pieceStart rest j

@[simp] theorem pieceStart_zero (pieces : List Text) : pieceStart pieces 0 = 0 := by
  cases pieces <;> rfl

@[simp] theorem pieceStart_cons (piece : Text) (pieces : List Text) (j : Nat) :
    pieceStart (piece :: pieces) (j + 1) = piece.length + 1 + pieceStart pieces j := rfl

theorem pieceStart_succ {pieces : List Text} {j : Nat} {piece : Text}
    (h : pieces[j]? = some piece) :
    pieceStart pieces (j + 1) = pieceStart pieces j + piece.length + 1 := by
  induction pieces generalizing j with
  | nil => contradiction
  | cons head rest ih =>
    cases j with
    | zero =>
      cases h
      simp
    | succ j =>
      have hrest := ih h
      rw [pieceStart_cons, hrest, pieceStart_cons]
      omega

theorem pieceStart_mono (pieces : List Text) {i j : Nat} (h : i ≤ j) :
    pieceStart pieces i ≤ pieceStart pieces j := by
  induction pieces generalizing i j with
  | nil => cases i <;> simp [pieceStart]
  | cons head rest ih =>
    cases i with
    | zero => simp
    | succ i =>
      cases j with
      | zero => omega
      | succ j =>
        have hrest := ih (Nat.le_of_succ_le_succ h)
        rw [pieceStart_cons, pieceStart_cons]
        omega

/-- Different positions have different offsets. -/
theorem pieceStart_add_inj {pieces : List Text} {i j c d : Nat} {p q : Text}
    (hp : pieces[i]? = some p) (hq : pieces[j]? = some q) (hc : c ≤ p.length) (hd : d ≤ q.length)
    (h : pieceStart pieces i + c = pieceStart pieces j + d) : i = j ∧ c = d := by
  have hi := pieceStart_succ hp
  have hj := pieceStart_succ hq
  rcases Nat.lt_trichotomy i j with hlt | rfl | hgt
  · have := pieceStart_mono pieces (show i + 1 ≤ j from hlt)
    omega
  · exact ⟨rfl, by omega⟩
  · have := pieceStart_mono pieces (show j + 1 ≤ i from hgt)
    omega

theorem length_intercalate {pieces : List Text} (hne : pieces ≠ []) :
    (['\n'].intercalate pieces).length + 1 = pieceStart pieces pieces.length := by
  induction pieces with
  | nil => contradiction
  | cons piece rest ih =>
    rw [List.length_cons, pieceStart_cons]
    cases rest with
    | nil => simp
    | cons next more =>
      have := ih (by simp)
      rw [List.intercalate_cons_cons]
      simp only [List.length_append, List.length_cons, List.length_nil] at *
      omega

/-- The offsets behind the line feeds of a text that starts at offset `base`. -/
def breaksFrom (base : Nat) (text : Text) : List Nat :=
  ((text.zipIdx base).filter (·.1 = '\n')).map (·.2 + 1)

theorem breaksFrom_of_not_mem {piece : Text} (h : '\n' ∉ piece) (base : Nat) :
    breaksFrom base piece = [] := by
  rw [breaksFrom, List.map_eq_nil_iff, List.filter_eq_nil_iff]
  intro entry hentry
  have hmem : entry.1 ∈ piece := List.fst_mem_of_mem_zipIdx hentry
  simp only [decide_eq_true_eq]
  rintro hbreak
  exact h (hbreak ▸ hmem)

@[simp] theorem breaksFrom_append (base : Nat) (xs ys : Text) :
    breaksFrom base (xs ++ ys) = breaksFrom base xs ++ breaksFrom (base + xs.length) ys := by
  simp [breaksFrom, List.zipIdx_append]

theorem breaksFrom_intercalate {pieces : List Text} (hne : pieces ≠ [])
    (hclean : ∀ p ∈ pieces, '\n' ∉ p) (base : Nat) :
    base :: breaksFrom base (['\n'].intercalate pieces) =
      (List.range pieces.length).map (base + pieceStart pieces ·) := by
  induction pieces generalizing base with
  | nil => contradiction
  | cons piece rest ih =>
    have hpiece := breaksFrom_of_not_mem (hclean piece List.mem_cons_self)
    rw [List.length_cons, List.range_succ_eq_map, List.map_cons, List.map_map]
    cases rest with
    | nil => simp [hpiece]
    | cons next more =>
      have hrest := ih (by simp) (fun p hp => hclean p (List.mem_cons_of_mem _ hp))
        (base + piece.length + 1)
      have hbreak : breaksFrom (base + piece.length) ['\n'] = [base + piece.length + 1] := rfl
      rw [List.intercalate_cons_cons, breaksFrom_append, breaksFrom_append, hpiece, hbreak]
      rw [List.nil_append, List.singleton_append, List.length_append, List.length_singleton,
        ← Nat.add_assoc, hrest]
      simp only [List.cons.injEq, pieceStart_zero, Nat.add_zero, true_and]
      apply List.map_congr_left
      intro j _
      simp only [Function.comp_apply, Nat.succ_eq_add_one, pieceStart_cons]
      omega

theorem lineStarts_eq (text : Text) :
    lineStarts text =
      (List.range (text.splitOn '\n').length).map (pieceStart (text.splitOn '\n')) := by
  have h := breaksFrom_intercalate (List.splitOn_ne_nil '\n' text)
    (fun p hp => newline_not_mem_of_mem_splitOn hp) 0
  rw [List.intercalate_splitOn] at h
  simpa [lineStarts, breaksFrom] using h

/-- The offset of a position that lies on its piece. -/
theorem offsetOf_eq {text piece : Text} {p : Position}
    (h : (text.splitOn '\n')[p.line]? = some piece) (hle : p.character ≤ piece.length) :
    offsetOf (lineStarts text).toArray text.length p =
      pieceStart (text.splitOn '\n') p.line + p.character := by
  obtain ⟨hlt, _⟩ := List.getElem?_eq_some_iff.mp h
  have hlen := length_intercalate (List.splitOn_ne_nil '\n' text)
  rw [List.intercalate_splitOn] at hlen
  have hsucc := pieceStart_succ h
  have hmono := pieceStart_mono (text.splitOn '\n') (show p.line + 1 ≤ _ from hlt)
  have hstart : (lineStarts text).toArray[p.line]? =
      some (pieceStart (text.splitOn '\n') p.line) := by
    simp [lineStarts_eq, hlt]
  rw [offsetOf, hstart]
  exact Nat.min_eq_left (by omega)

/-- What the edits insert at a position. -/
def insertedOn (edits : List Edit) (line column : Nat) : Text :=
  (edits.filter (·.position = ⟨line, column⟩)).flatMap (·.newText)

/-- A list of edits whose positions all lie in the text. -/
def InText (text : Text) (edits : List Edit) : Prop :=
  ∀ e ∈ edits, ∃ piece, (text.splitOn '\n')[e.position.line]? = some piece ∧
    e.position.character ≤ piece.length

theorem insertedAt_pieceStart {text piece : Text} {edits : List Edit} (h : InText text edits)
    {j c : Nat} (hj : (text.splitOn '\n')[j]? = some piece) (hc : c ≤ piece.length) :
    insertedAt text edits (pieceStart (text.splitOn '\n') j + c) = insertedOn edits j c := by
  have hfilter : edits.filter (fun e => offsetOf (lineStarts text).toArray text.length e.position =
      pieceStart (text.splitOn '\n') j + c) = edits.filter (·.position = ⟨j, c⟩) := by
    apply List.filter_congr
    intro e he
    obtain ⟨p, hp, hle⟩ := h e he
    rw [offsetOf_eq hp hle, decide_eq_decide]
    constructor
    · intro heq
      obtain ⟨hl, hcol⟩ := pieceStart_add_inj hp hj hle hc heq
      cases hpos : e.position
      simp_all
    · intro heq
      rw [heq]
  rw [insertedAt, hfilter, insertedOn]

theorem spread_intercalate {pieces : List Text} (hne : pieces ≠ []) {gap : Nat → Text}
    {place : Nat → Nat → Text} {base first : Nat}
    (h : ∀ j c piece, pieces[j]? = some piece → c ≤ piece.length →
      gap (base + (pieceStart pieces j + c)) = place (first + j) c) :
    spread gap base (['\n'].intercalate pieces) =
      ['\n'].intercalate
        ((pieces.zipIdx first).map fun entry => spread (place entry.2) 0 entry.1) := by
  induction pieces generalizing base first with
  | nil => contradiction
  | cons piece rest ih =>
    have hpiece : spread gap base piece = spread (place first) 0 piece := by
      rw [← Nat.add_zero base, spread_shift]
      apply spread_congr
      intro o _ ho
      have := h 0 o piece rfl (by omega)
      simpa using this
    cases rest with
    | nil => simpa using hpiece
    | cons next more =>
      have hrest := @ih (by simp) (base + piece.length + 1) (first + 1) (by
        intro j c q hq hc
        have := h (j + 1) c q (by simpa using hq) hc
        rw [pieceStart_cons] at this
        rw [show base + piece.length + 1 + (pieceStart (next :: more) j + c) =
            base + (piece.length + 1 + pieceStart (next :: more) j + c) by omega, this]
        congr 1
        omega)
      rw [List.intercalate_cons_cons, List.append_assoc, List.singleton_append, spread_break,
        hpiece, hrest]
      simp only [List.zipIdx_cons, List.map_cons, List.intercalate_cons_cons, List.append_assoc,
        List.singleton_append]

/-- Edits act on every piece of the text by itself. -/
theorem applyEdits_eq_intercalate {text : Text} {edits : List Edit} (h : InText text edits) :
    applyEdits text edits = ['\n'].intercalate ((text.splitOn '\n').zipIdx.map fun entry =>
      spread (insertedOn edits entry.2) 0 entry.1) := by
  have hspread := @spread_intercalate _ (List.splitOn_ne_nil '\n' text) (insertedAt text edits)
    (insertedOn edits) 0 0 (by
      intro j c piece hj hc
      rw [Nat.zero_add, Nat.zero_add]
      exact insertedAt_pieceStart h hj hc)
  rw [List.intercalate_splitOn] at hspread
  rw [applyEdits_eq_spread, hspread]

end CalcLint
