import CalcLint.Keyword
import Mathlib.Tactic.ByContra

/-!
# Where keywords match

A keyword is spelled with letters only, so where it matches stand letters only: no blank, no quote
and no part of a comment mark. A match ends where a word ends, so at most one keyword matches at a
place.
-/
namespace CalcLint

theorem ne_of_class {p : Char → Bool} {c d : Char} (h : p c = true) (hd : p d = false) : c ≠ d := by
  rintro rfl
  rw [h] at hd
  contradiction

theorem isAlpha_of_isUpper {c : Char} (h : c.isUpper = true) : c.isAlpha = true := by
  show (c.isUpper || c.isLower) = true
  rw [h, Bool.true_or]

theorem isAlpha_of_isUpper_toUpper {c : Char} (h : c.toUpper.isUpper = true) :
    c.isAlpha = true := by
  by_cases hlower : 'a'.val ≤ c.val ∧ c.val ≤ 'z'.val
  · have hletter : c.isLower = true := by
      show (decide ('a'.val ≤ c.val) && decide (c.val ≤ 'z'.val)) = true
      rw [Bool.and_eq_true, decide_eq_true_eq, decide_eq_true_eq]
      exact hlower
    show (c.isUpper || c.isLower) = true
    rw [hletter, Bool.or_true]
  · have hsame : c.toUpper = c := dif_neg hlower
    rw [hsame] at h
    exact isAlpha_of_isUpper h

@[simp] theorem isWordChar_of_isAlpha {c : Char} (h : c.isAlpha = true) : isWordChar c = true := by
  simp [isWordChar, Char.isAlphanum, h]

theorem toNat_of_isWordChar {c : Char} (h : isWordChar c = true) :
    48 ≤ c.toNat ∧ c.toNat ≤ 122 := by
  change (((decide ('A'.val ≤ c.val ∧ c.val ≤ 'Z'.val) ||
    (decide ('a'.val ≤ c.val) && decide (c.val ≤ 'z'.val))) ||
    (decide ('0'.val ≤ c.val) && decide (c.val ≤ '9'.val))) || c == '_') = true at h
  simp only [Bool.or_eq_true, Bool.and_eq_true, decide_eq_true_eq, UInt32.le_iff_toNat_le,
    beq_iff_eq] at h
  change (((65 ≤ c.toNat ∧ c.toNat ≤ 90) ∨ (97 ≤ c.toNat ∧ c.toNat ≤ 122)) ∨
    (48 ≤ c.toNat ∧ c.toNat ≤ 57)) ∨ c = '_' at h
  rcases h with ((h | h) | h) | rfl
  · omega
  · omega
  · omega
  · decide

@[simp] theorem isWordChar_of_isBlank {c : Char} (h : isBlank c = true) : isWordChar c = false := by
  rw [Bool.eq_false_iff]
  intro hword
  have hbounds := toNat_of_isWordChar hword
  simp [isBlank, blankRanges] at h
  omega

@[simp] theorem isAlpha_of_isBlank {c : Char} (h : isBlank c = true) : c.isAlpha = false := by
  rw [Bool.eq_false_iff]
  intro halpha
  have hword := isWordChar_of_isBlank h
  rw [isWordChar_of_isAlpha halpha] at hword
  contradiction

namespace Keyword

theorem isUpper_of_mem_spelling {k : Keyword} {c : Char} (h : c ∈ k.spelling) :
    c.isUpper = true := by
  have hall : k.spelling.all Char.isUpper = true := by cases k <;> rfl
  exact List.all_eq_true.mp hall c h

theorem spelling_injective {k k' : Keyword} (h : k.spelling = k'.spelling) : k = k' := by
  revert h
  cases k <;> cases k' <;> decide

theorem begins_iff {k : Keyword} {rest : Line} :
    k.begins rest = true ↔ (rest.take k.width).map Char.toUpper = k.spelling ∧
      ∀ c, rest[k.width]? = some c → isWordChar c = false := by
  have hend : ∀ o : Option Char, (!o.any isWordChar) = true ↔
      ∀ c, o = some c → isWordChar c = false := by
    intro o
    cases o <;> simp
  rw [begins, Bool.and_eq_true, beq_iff_eq, List.head?_drop, hend]

/-- Where a keyword matches stand letters only. -/
theorem isAlpha_of_begins {k : Keyword} {rest : Line} (h : k.begins rest = true) {c : Char}
    (hc : c ∈ rest.take k.width) : c.isAlpha = true := by
  apply isAlpha_of_isUpper_toUpper
  apply isUpper_of_mem_spelling (k := k)
  rw [← (begins_iff.mp h).1]
  exact List.mem_map_of_mem hc

theorem width_le_of_begins_of_begins {k k' : Keyword} {rest : Line} (h : k.begins rest = true)
    (h' : k'.begins rest = true) : k'.width ≤ k.width := by
  by_contra hlt
  have hlen := width_le_of_begins h'
  have hmem : rest[k.width] ∈ rest.take k'.width := by
    rw [List.mem_take_iff_getElem]
    exact ⟨k.width, by omega, rfl⟩
  have hword := isWordChar_of_isAlpha (isAlpha_of_begins h' hmem)
  have hend := (begins_iff.mp h).2 rest[k.width] (by simp)
  rw [hword] at hend
  contradiction

/-- At most one keyword begins at a place. -/
theorem begins_unique {k k' : Keyword} {rest : Line} (h : k.begins rest = true)
    (h' : k'.begins rest = true) : k = k' := by
  have hwidth : k.width = k'.width :=
    Nat.le_antisymm (width_le_of_begins_of_begins h' h) (width_le_of_begins_of_begins h h')
  apply spelling_injective
  rw [← (begins_iff.mp h).1, ← (begins_iff.mp h').1, hwidth]

theorem mem_priority (k : Keyword) : k ∈ priority := by
  cases k <;> decide

/-- The keyword that matches is the one that begins at a word boundary, in whatever order the
keywords are tried. -/
@[simp] theorem match?_eq_some_iff {before : Option Char} {rest : Line} {k : Keyword} :
    match? before rest = some k ↔ before.any isWordChar = false ∧ k.begins rest = true := by
  constructor
  · intro h
    refine ⟨?_, begins_of_match? h⟩
    by_contra hbefore
    simp [match?, hbefore] at h
  · rintro ⟨hbefore, hbegins⟩
    rw [match?, hbefore, if_neg (by simp)]
    cases hfind : priority.find? (·.begins rest) with
    | none => exact absurd hbegins (by simpa using List.find?_eq_none.mp hfind k (mem_priority k))
    | some k' =>
      have hk' := List.find?_some hfind
      rw [begins_unique hbegins hk']

@[simp] theorem match?_of_not_isAlpha {c : Char} (h : c.isAlpha = false) (before : Option Char)
    (tail : Line) : match? before (c :: tail) = none := by
  cases hk : match? before (c :: tail) with
  | none => rfl
  | some k =>
    have hmem : c ∈ (c :: tail).take k.width := by
      obtain ⟨w, hw⟩ := Nat.exists_eq_add_of_lt k.width_pos
      rw [hw]
      simp
    rw [isAlpha_of_begins (begins_of_match? hk) hmem] at h
    contradiction

/-- A keyword spelled out and followed by nothing matches at a word boundary. -/
@[simp] theorem match?_spelling {before : Option Char} (h : before.any isWordChar = false)
    (k : Keyword) :
    match? before k.spelling = some k := by
  rw [match?_eq_some_iff]
  refine ⟨h, ?_⟩
  cases k <;> decide

end Keyword

end CalcLint
