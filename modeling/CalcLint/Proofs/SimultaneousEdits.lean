import CalcLint.Proofs.Insertion
import Mathlib

/-!
# Edits in one step and one after the other

Edits may be applied one after the other, from the end of the text to its start: a piece put in
further down moves no offset further up. They may be applied at once: in front of each character of
the text stands what the edits at its offset insert. Both give the same text. So nothing but the
order of edits at one offset matters, and the text is what is left when the insertions are taken
out.
-/
namespace CalcLint

/-- The offset in a text at which an edit inserts. -/
def Edit.offset (text : Text) (e : Edit) : Nat :=
  offsetOf (lineStarts text).toArray text.length e.position

theorem insertedAt_eq (text : Text) (edits : List Edit) (offset : Nat) :
    insertedAt text edits offset =
      (edits.filter (·.offset text = offset)).flatMap (·.newText) :=
  rfl

def splice (insertion : Nat × Text) (text : Text) : Text :=
  text.take insertion.1 ++ insertion.2 ++ text.drop insertion.1

@[simp] theorem splice_length (front piece rest : Text) :
    splice (front.length, piece) (front ++ rest) = front ++ (piece ++ rest) := by
  simp [splice]

/-- Splicing leaves alone what stands in front of all offsets, and behind it is weaving. -/
theorem foldr_splice {pieces : List (Nat × Text)} {front rest : Text}
    (hsorted : pieces.Pairwise (fun a b => a.1 ≤ b.1)) (hlo : ∀ p ∈ pieces, front.length ≤ p.1)
    (hhi : ∀ p ∈ pieces, p.1 ≤ front.length + rest.length) :
    pieces.foldr splice (front ++ rest) = front ++ weave front.length pieces rest := by
  induction pieces generalizing front rest with
  | nil => rfl
  | cons head more ih =>
    obtain ⟨offset, piece⟩ := head
    obtain ⟨hle, hmore⟩ := List.pairwise_cons.mp hsorted
    have hoff : front.length ≤ offset := hlo _ List.mem_cons_self
    have hend : offset ≤ front.length + rest.length := hhi _ List.mem_cons_self
    -- The front grows up to the offset, which is in front of all offsets to come.
    have hlength : (front ++ rest.take (offset - front.length)).length = offset := by
      rw [List.length_append, List.length_take]
      omega
    have hrest := @ih (front ++ rest.take (offset - front.length))
      (rest.drop (offset - front.length)) hmore
      (by
        intro p hp
        rw [hlength]
        exact hle p hp)
      (by
        intro p hp
        have := hhi p (List.mem_cons_of_mem _ hp)
        rw [hlength, List.length_drop]
        omega)
    rw [List.append_assoc, List.take_append_drop, hlength] at hrest
    have hsplice := splice_length (front ++ rest.take (offset - front.length)) piece
      (weave offset more (rest.drop (offset - front.length)))
    rw [hlength] at hsplice
    rw [List.foldr_cons, hrest, weave, ← List.append_assoc, ← hsplice, List.append_assoc]

/-- Edits may be applied one after the other, the last offset first. -/
theorem applyEdits_eq_foldr (text : Text) (edits : List Edit) :
    applyEdits text edits = (insertions text edits).foldr splice text := by
  have h := @foldr_splice (insertions text edits) [] text (insertions_pairwise text edits)
    (fun _ _ => Nat.zero_le _)
    (fun p hp => by simpa using offset_le_of_mem_insertions hp)
  exact h.symm

theorem spread_eq_flatMap (gap : Nat → Text) (start : Nat) (text : Text) :
    spread gap start text =
      (text.zipIdx start).flatMap (fun x => gap x.2 ++ [x.1]) ++ gap (start + text.length) := by
  induction text generalizing start with
  | nil => rfl
  | cons c rest ih =>
    have hlength : start + (c :: rest).length = start + 1 + rest.length := by
      rw [List.length_cons]
      omega
    rw [spread, ih, List.zipIdx_cons, List.flatMap_cons, hlength]
    simp

/-- A text without the `width o` characters in front of the character that stood at offset `o`; the
text starts at offset `start`. -/
def withoutGaps (width : Nat → Nat) (start : Nat) (text : Text) : Text :=
  match _ : text.drop (width start) with
  | [] => []
  | c :: rest => c :: withoutGaps width (start + 1) rest
termination_by text.length
decreasing_by
  have hlength := congrArg List.length ‹text.drop (width start) = c :: rest›
  rw [List.length_drop, List.length_cons] at hlength
  omega

theorem withoutGaps_of_drop_nil {width : Nat → Nat} {start : Nat} {text : Text}
    (h : text.drop (width start) = []) : withoutGaps width start text = [] := by
  rw [withoutGaps]
  split
  · rfl
  · simp_all

theorem withoutGaps_of_drop_cons {width : Nat → Nat} {start : Nat} {text : Text} {c : Char}
    {rest : Text} (h : text.drop (width start) = c :: rest) :
    withoutGaps width start text = c :: withoutGaps width (start + 1) rest := by
  rw [withoutGaps]
  split
  · simp_all
  · simp_all

theorem withoutGaps_spread (gap : Nat → Text) (start : Nat) (text : Text) :
    withoutGaps (fun o => (gap o).length) start (spread gap start text) = text := by
  induction text generalizing start with
  | nil => exact withoutGaps_of_drop_nil List.drop_length
  | cons c rest ih =>
    rw [spread, withoutGaps_of_drop_cons List.drop_left, ih]

@[simp] theorem length_weave (start : Nat) (pieces : List (Nat × Text)) (text : Text) :
    (weave start pieces text).length = text.length + (pieces.map (·.2.length)).sum := by
  induction pieces generalizing start text with
  | nil => rfl
  | cons head more ih =>
    obtain ⟨offset, piece⟩ := head
    have hcut := congrArg List.length (List.take_append_drop (offset - start) text)
    rw [List.length_append] at hcut
    simp only [weave, List.length_append, ih, List.map_cons, List.sum_cons]
    omega

/-- Every edit makes a text longer by what it inserts. -/
@[simp] theorem length_applyEdits (text : Text) (edits : List Edit) :
    (applyEdits text edits).length = text.length + (edits.map (·.newText.length)).sum := by
  have hsum := ((map_snd_insertions_perm text edits).map List.length).sum_nat
  rw [List.map_map, List.map_map] at hsum
  rw [applyEdits, length_weave]
  exact congrArg _ hsum

theorem filter_offset_eq_of_perm {text : Text} {edits edits' : List Edit} (h : edits.Perm edits')
    (hne : edits.Pairwise fun e f => e.offset text ≠ f.offset text) (offset : Nat) :
    edits'.filter (·.offset text = offset) = edits.filter (·.offset text = offset) := by
  have hperm := h.filter (·.offset text = offset)
  -- At one offset there is one edit at most, so there is nothing to permute.
  cases hedits : edits.filter (·.offset text = offset) with
  | nil => rw [hedits] at hperm; exact hperm.nil_eq.symm
  | cons e more =>
    have hmore : more = [] := by
      rw [List.eq_nil_iff_forall_not_mem]
      intro f hf
      have hdistinct := hne.filter (·.offset text = offset)
      rw [hedits] at hdistinct
      have hmem : ∀ g ∈ e :: more, g.offset text = offset := by
        intro g hg
        rw [← hedits] at hg
        exact of_decide_eq_true (List.mem_filter.mp hg).2
      apply (List.pairwise_cons.mp hdistinct).1 f hf
      rw [hmem e List.mem_cons_self, hmem f (List.mem_cons_of_mem e hf)]
    rw [hedits, hmore] at hperm
    rw [hmore]
    exact List.singleton_perm.mp hperm |>.symm

/-- Edits with different offsets may be given in any order. -/
theorem applyEdits_perm {text : Text} {edits edits' : List Edit} (h : edits.Perm edits')
    (hne : edits.Pairwise fun e f => e.offset text ≠ f.offset text) :
    applyEdits text edits' = applyEdits text edits := by
  rw [applyEdits_eq_spread, applyEdits_eq_spread]
  apply spread_congr
  intro offset _ _
  rw [insertedAt_eq, insertedAt_eq, filter_offset_eq_of_perm h hne]

/-- Edits are applied at once. In front of the character at each offset, and behind the last one,
stands what the edits at that offset insert, in the order in which they were given. Splicing them in
one after the other from the end gives the same text, the text grows by what is inserted, it is what
is left without the insertions, and the order of edits with different offsets does not matter. -/
theorem applyEdits_inserts_at_once (text : Text) (edits : List Edit) :
    applyEdits text edits =
      text.zipIdx.flatMap (fun x =>
        (edits.filter (·.offset text = x.2)).flatMap (·.newText) ++ [x.1]) ++
        (edits.filter (·.offset text = text.length)).flatMap (·.newText) ∧
    applyEdits text edits = (insertions text edits).foldr splice text ∧
    (applyEdits text edits).length = text.length + (edits.map (·.newText.length)).sum ∧
    withoutGaps (fun o => ((edits.filter (·.offset text = o)).flatMap (·.newText)).length) 0
      (applyEdits text edits) = text ∧
    ∀ edits', edits.Perm edits' → (edits.Pairwise fun e f => e.offset text ≠ f.offset text) →
      applyEdits text edits' = applyEdits text edits := by
  refine ⟨?_, applyEdits_eq_foldr text edits, length_applyEdits text edits, ?_, ?_⟩
  · rw [applyEdits_eq_spread, spread_eq_flatMap, Nat.zero_add]
    rfl
  · rw [applyEdits_eq_spread]
    exact withoutGaps_spread (insertedAt text edits) 0 text
  · intro edits' h hne
    exact applyEdits_perm h hne

/-- Three edits out of order, one of them behind the end of its line and one behind the text. -/
theorem applyEdits_inserts_at_once_reversed :
    applyEdits ['a', '\n', 'b'] [⟨⟨7, 0⟩, ['z']⟩, ⟨⟨0, 2⟩, ['y']⟩, ⟨⟨0, 1⟩, ['x']⟩] =
        ['a', 'x', '\n', 'y', 'b', 'z'] ∧
      applyEdits ['a', '\n', 'b'] [⟨⟨0, 1⟩, ['x']⟩, ⟨⟨0, 2⟩, ['y']⟩, ⟨⟨7, 0⟩, ['z']⟩] =
        applyEdits ['a', '\n', 'b'] [⟨⟨7, 0⟩, ['z']⟩, ⟨⟨0, 2⟩, ['y']⟩, ⟨⟨0, 1⟩, ['x']⟩] := by
  obtain ⟨hall, -, -, -, hperm⟩ := applyEdits_inserts_at_once ['a', '\n', 'b']
    [⟨⟨7, 0⟩, ['z']⟩, ⟨⟨0, 2⟩, ['y']⟩, ⟨⟨0, 1⟩, ['x']⟩]
  refine ⟨by rw [hall]; decide, hperm _ ?_ ?_⟩
  · exact (List.reverse_perm _).symm
  · decide

end CalcLint
