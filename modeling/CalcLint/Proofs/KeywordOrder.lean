import CalcLint.Proofs.KeywordMatch
import Mathlib.Data.List.Find

/-!
# The order in which keywords are tried

Some keywords are parts of others, yet the order in which they are tried decides nothing: a keyword
must end where its word ends, so at most one passes at a column. Nor does another one pass inside a
keyword, since a letter stands in front of every later column of it.
-/
namespace CalcLint.Keyword

/-- The character in front of a column. -/
def charBefore (chars : Line) : Nat → Option Char
  | 0 => none
  | column + 1 => chars[column]?

/-- What a keyword is tested for at a column: that it fits on the line, is spelled there in ASCII
letters of any case, and has no word character in front of it or behind it. -/
structure PassesAt (k : Keyword) (chars : Line) (column : Nat) : Prop where
  fits : column + k.width ≤ chars.length
  ascii : ∀ c ∈ (chars.drop column).take k.width, c.toNat < 128
  spelling : ((chars.drop column).take k.width).map Char.toUpper = k.spelling
  before : ∀ c, charBefore chars column = some c → isWordChar c = false
  behind : ∀ c, chars[column + k.width]? = some c → isWordChar c = false

section
variable {k k' : Keyword} {chars : Line} {column : Nat}

theorem passesAt_iff :
    k.PassesAt chars column ↔
      (charBefore chars column).any isWordChar = false ∧ k.begins (chars.drop column) = true := by
  rw [Option.any_eq_false]
  constructor
  · rintro ⟨_, _, hspelling, hfront, hbehind⟩
    refine ⟨hfront, begins_iff.mpr ⟨hspelling, ?_⟩⟩
    rw [List.getElem?_drop]
    exact hbehind
  · rintro ⟨hfront, hbegins⟩
    obtain ⟨hspelling, hbehind⟩ := begins_iff.mp hbegins
    have hwidth := width_le_of_begins hbegins
    have hpos := k.width_pos
    rw [List.length_drop] at hwidth
    refine ⟨by omega, ?_, hspelling, hfront, ?_⟩
    · intro c hc
      have hbounds := toNat_of_isWordChar (isWordChar_of_isAlpha (isAlpha_of_begins hbegins hc))
      omega
    · rwa [List.getElem?_drop] at hbehind

instance : Decidable (k.PassesAt chars column) :=
  decidable_of_iff _ passesAt_iff.symm

/-- At most one keyword passes at a column. -/
theorem PassesAt.unique (h : k.PassesAt chars column) (h' : k'.PassesAt chars column) : k = k' :=
  begins_unique (passesAt_iff.mp h).2 (passesAt_iff.mp h').2

/-- No keyword passes behind the first letter of one that does. -/
theorem PassesAt.not_inside (h : k.PassesAt chars column) {inner : Nat} (hlt : column < inner)
    (hinner : inner < column + k.width) : ¬ k'.PassesAt chars inner := by
  intro h'
  -- The character in front of `inner` is one of the letters of `k`.
  obtain ⟨last, rfl⟩ := Nat.exists_eq_add_of_lt hlt
  have hfits := h.fits
  have hmem : chars[column + last] ∈ (chars.drop column).take k.width := by
    rw [List.mem_take_iff_getElem]
    refine ⟨last, ?_, by simp⟩
    rw [List.length_drop]
    omega
  have hword := isWordChar_of_isAlpha (isAlpha_of_begins (passesAt_iff.mp h).2 hmem)
  have hfront := h'.before chars[column + last] (List.getElem?_eq_getElem (by omega))
  rw [hword] at hfront
  contradiction

/-- The first keyword of an order that passes at a column. -/
def tryAt? (order : List Keyword) (chars : Line) (column : Nat) : Option Keyword :=
  order.find? fun k => decide (k.PassesAt chars column)

theorem passesAt_of_tryAt? {order : List Keyword} (h : tryAt? order chars column = some k) :
    k.PassesAt chars column :=
  of_decide_eq_true (List.find?_some (p := fun k : Keyword => decide (k.PassesAt chars column)) h)

theorem match?_eq_tryAt? (chars : Line) (column : Nat) :
    match? (charBefore chars column) (chars.drop column) = tryAt? priority chars column := by
  unfold match? tryAt?
  split
  · rename_i hword
    symm
    rw [List.find?_eq_none]
    intro k _
    simp [passesAt_iff, hword]
  · rename_i hword
    apply List.find?_congr
    intro k _
    simp [passesAt_iff, hword]

/-- A look-up inside a line or at its end gives the first keyword that passes, in order of
priority. -/
theorem at?_eq_tryAt? (h : column ≤ chars.length) :
    at? chars column = .ok (tryAt? priority chars column) := by
  rw [← match?_eq_tryAt?]
  cases column with
  | zero => rfl
  | succ before =>
    have hbefore : chars[before]? = some chars[before] := List.getElem?_eq_getElem h
    rw [at?, charBefore, hbefore]

theorem tryAt?_perm {order : List Keyword} (h : order.Perm priority) :
    tryAt? order chars column = tryAt? priority chars column := by
  apply List.find?_eq_find?_of_perm h
  intro k hk k' hk'
  exact (of_decide_eq_true hk.2).unique (of_decide_eq_true hk'.2)

end

/-- The order in which the keywords are tried is free. At most one of them passes at a column, every
order finds what the look-up finds, and inside a keyword that was found no other one is found. -/
theorem at?_ignores_order (chars : Line) (column : Nat) (h : column ≤ chars.length) :
    (∀ k k' : Keyword, k.PassesAt chars column → k'.PassesAt chars column → k = k') ∧
    (∀ order : List Keyword, order.Perm priority →
      at? chars column = .ok (tryAt? order chars column)) ∧
    ∀ k, at? chars column = .ok (some k) → ∀ inner, column < inner → inner < column + k.width →
      at? chars inner = .ok none ∧ ∀ k' : Keyword, ¬ k'.PassesAt chars inner := by
  refine ⟨fun k k' hk hk' => hk.unique hk', ?_, ?_⟩
  · intro order horder
    rw [tryAt?_perm horder]
    exact at?_eq_tryAt? h
  · intro k hk inner hlt hinner
    rw [at?_eq_tryAt? h] at hk
    have hpass : k.PassesAt chars column := passesAt_of_tryAt? (Except.ok.inj hk)
    have hnone : ∀ k' : Keyword, ¬ k'.PassesAt chars inner := fun k' =>
      hpass.not_inside hlt hinner
    have hfits := hpass.fits
    refine ⟨?_, hnone⟩
    rw [at?_eq_tryAt? (by omega), tryAt?, List.find?_eq_none.mpr (by simp [hnone])]

/-- `ELSEIF` with each of its parts tried before it. -/
theorem at?_finds_elseif_last :
    2 ≤ "x ElseIf(".toList.length ∧ priority.reverse.Perm priority ∧
    tryAt? priority.reverse "x ElseIf(".toList 2 = some .elseIf ∧
    at? "x ElseIf(".toList 2 = .ok (tryAt? priority.reverse "x ElseIf(".toList 2) ∧
    at? "x ElseIf(".toList 6 = .ok none := by
  have hlength : 2 ≤ "x ElseIf(".toList.length := by decide
  have hperm : priority.reverse.Perm priority := List.reverse_perm priority
  have hfound : at? "x ElseIf(".toList 2 = .ok (some .elseIf) := by decide
  obtain ⟨_, horder, hinside⟩ := at?_ignores_order "x ElseIf(".toList 2 hlength
  exact ⟨hlength, hperm, by decide, horder _ hperm,
    (hinside .elseIf hfound 6 (by decide) (by decide)).1⟩

end CalcLint.Keyword
