import CalcLint.Proofs.TokenOrder
import Mathlib.Algebra.Group.Nat.Even
import Mathlib.Data.List.DropRight
import Mathlib.Order.Bounds.Defs

/-!
# Where a string ends

The skip over a string goes forwards and takes a backslash together with the character behind it.
Seen backwards from a quote, only the backslashes directly in front of it count: the quote ends the
string if they make up pairs. The two views agree because the skip only ever stops in front of a
character whose backslashes are paired.
-/
namespace CalcLint

/-- The number of backslashes directly in front of column `q`, those behind column `p` only. -/
def slashRun (chars : Line) (p q : Nat) : Nat :=
  (((chars.take q).drop (p + 1)).rtakeWhile (· = '\\')).length

/-- A quote behind column `p` in front of which the backslashes make up pairs. -/
structure ClosesString (chars : Line) (p q : Nat) : Prop where
  behind : p < q
  quote : chars[q]? = some '"'
  paired : Even (slashRun chars p q)

/-- The end of a string whose inside begins behind column `p`: the column behind the first closing
quote, or the end of the line. -/
def StringEnds (chars : Line) (p stop : Nat) : Prop :=
  (∃ q, IsLeast {q | ClosesString chars p q} q ∧ stop = q + 1) ∨
    (∀ q, ¬ ClosesString chars p q) ∧ stop = chars.length

section
variable {chars : Line} {p q : Nat} {c : Char}

@[simp] theorem slashRun_start (chars : Line) (p : Nat) : slashRun chars p (p + 1) = 0 := by
  rw [slashRun, List.drop_eq_nil_of_le (List.length_take_le _ _), List.rtakeWhile_nil,
    List.length_nil]

/-- A backslash makes the run longer, and any other character ends it. -/
theorem slashRun_succ (hp : p < q) (hq : chars[q]? = some c) :
    slashRun chars p (q + 1) = if c = '\\' then slashRun chars p q + 1 else 0 := by
  obtain ⟨hlt, _⟩ := List.getElem?_eq_some_iff.mp hq
  have hinside : (chars.take (q + 1)).drop (p + 1) = (chars.take q).drop (p + 1) ++ [c] := by
    rw [List.take_add_one, hq, Option.toList_some, List.drop_append_of_le_length]
    rw [List.length_take]
    omega
  rw [slashRun, hinside, List.rtakeWhile_concat, slashRun]
  by_cases hslash : c = '\\' <;> simp [hslash]

theorem ClosesString.lt_length (h : ClosesString chars p q) : q < chars.length :=
  (List.getElem?_eq_some_iff.mp h.quote).1

theorem not_closesString_of_ne (hq : chars[q]? = some c) (hc : c ≠ '"') :
    ¬ ClosesString chars p q := by
  intro h
  have hsame := hq.symm.trans h.quote
  exact hc (Option.some.inj hsame)

/-- Where every closing quote is ruled out up to the end of the line, the line ends the string. -/
theorem StringEnds.of_none (hnone : ∀ r < q, ¬ ClosesString chars p r)
    (hlength : chars.length ≤ q) : StringEnds chars p chars.length := by
  refine Or.inr ⟨?_, rfl⟩
  intro r hr
  exact hnone r (Nat.lt_of_lt_of_le hr.lt_length hlength) hr

theorem StringEnds.of_first (hnone : ∀ r < q, ¬ ClosesString chars p r)
    (h : ClosesString chars p q) : StringEnds chars p (q + 1) := by
  refine Or.inl ⟨q, ⟨h, ?_⟩, rfl⟩
  intro r hr
  by_contra hlt
  exact hnone r (Nat.lt_of_not_le hlt) hr

theorem StringEnds.bounds {stop : Nat} (h : StringEnds chars p stop) (hp : p < chars.length) :
    p < stop ∧ stop ≤ chars.length := by
  rcases h with ⟨q, ⟨hq, _⟩, rfl⟩ | ⟨_, rfl⟩
  · exact ⟨Nat.lt_succ_of_lt hq.behind, hq.lt_length⟩
  · exact ⟨hp, Nat.le_refl _⟩

theorem none_before_succ (hnone : ∀ r < q, ¬ ClosesString chars p r)
    (hq : ¬ ClosesString chars p q) : ∀ r < q + 1, ¬ ClosesString chars p r := by
  intro r hr
  rcases Nat.lt_succ_iff_lt_or_eq.mp hr with hlt | rfl
  · exact hnone r hlt
  · exact hq

end

/-- The skip stops at the first closing quote, if it starts in front of that quote and behind paired
backslashes. -/
theorem afterString_ends {chars rest : Line} {p column : Nat} (hrest : chars.drop column = rest)
    (hp : p < column) (hpaired : Even (slashRun chars p column))
    (hnone : ∀ q < column, ¬ ClosesString chars p q) :
    StringEnds chars p (min (afterString column rest).1 chars.length) := by
  -- Along the skip, the run in front of the column stays even and no closing quote is passed.
  fun_induction afterString column rest with
  | case1 column =>
    have hlength : chars.length ≤ column := List.drop_eq_nil_iff.mp hrest
    rw [Nat.min_eq_right hlength]
    exact .of_none hnone hlength
  | case2 column c =>
    obtain ⟨hc, hbehind⟩ := of_drop_eq_cons hrest
    obtain ⟨hlt, _⟩ := List.getElem?_eq_some_iff.mp hc
    have hlength : chars.length = column + 1 :=
      Nat.le_antisymm (List.drop_eq_nil_iff.mp hbehind) hlt
    rw [hlength, Nat.min_self]
    by_cases hquote : c = '"'
    · exact .of_first hnone ⟨hp, hquote ▸ hc, hpaired⟩
    · rw [← hlength]
      exact .of_none (none_before_succ hnone (not_closesString_of_ne hc hquote)) hlength.le
  | case3 column d rest ih =>
    obtain ⟨hc, hbehind⟩ := of_drop_eq_cons hrest
    obtain ⟨hd, hbeyond⟩ := of_drop_eq_cons hbehind
    -- Behind the backslash the run is odd: what stands there is escaped, also a quote.
    have hodd : slashRun chars p (column + 1) = slashRun chars p column + 1 := slashRun_succ hp hc
    have hescaped : ¬ ClosesString chars p (column + 1) := by
      intro h
      have heven := h.paired
      rw [hodd, Nat.even_add_one] at heven
      exact heven hpaired
    apply ih hbeyond (by omega)
    · rw [slashRun_succ (by omega) hd, hodd]
      split
      · rwa [Nat.even_add_one, Nat.even_add_one, not_not]
      · exact Even.zero
    · exact none_before_succ
        (none_before_succ hnone (not_closesString_of_ne hc (by decide))) hescaped
  | case4 column d rest _ =>
    obtain ⟨hc, _⟩ := of_drop_eq_cons hrest
    have hlt := (List.getElem?_eq_some_iff.mp hc).1
    rw [Nat.min_eq_left hlt]
    exact .of_first hnone ⟨hp, hc, hpaired⟩
  | case5 column c d rest hslash hquote ih =>
    obtain ⟨hc, hbehind⟩ := of_drop_eq_cons hrest
    apply ih hbehind (by omega)
    · rw [slashRun_succ hp hc, if_neg hslash]
      exact Even.zero
    · exact none_before_succ hnone (not_closesString_of_ne hc hquote)

/-- A string ends behind the first quote with paired backslashes in front of it, or with its line;
so the skip always moves on and never leaves the line. -/
theorem skipString_ends_at_paired_quote (chars : Line) (p : Nat) (hp : p < chars.length) :
    ((∃ q, IsLeast {q | ClosesString chars p q} q ∧ skipString chars p = q + 1) ∨
      (∀ q, ¬ ClosesString chars p q) ∧ skipString chars p = chars.length) ∧
    p < skipString chars p ∧ skipString chars p ≤ chars.length := by
  have hpaired : Even (slashRun chars p (p + 1)) := by
    rw [slashRun_start]
    exact Even.zero
  have hnone : ∀ q < p + 1, ¬ ClosesString chars p q := by
    intro q hq h
    exact Nat.lt_irrefl p (Nat.lt_of_lt_of_le h.behind (Nat.le_of_lt_succ hq))
  have hends : StringEnds chars p (skipString chars p) :=
    afterString_ends rfl (Nat.lt_succ_self p) hpaired hnone
  exact ⟨hends, hends.bounds hp⟩

/-- One backslash escapes the quote behind it, and two do not. -/
theorem skipString_ends_behind_two_slashes :
    0 < ['"', 'a', '\\', '"', '\\', '\\', '"', 'b', '"'].length ∧
    skipString ['"', 'a', '\\', '"', '\\', '\\', '"', 'b', '"'] 0 = 7 ∧
    IsLeast {q | ClosesString ['"', 'a', '\\', '"', '\\', '\\', '"', 'b', '"'] 0 q} 6 := by
  have hlength : 0 < ['"', 'a', '\\', '"', '\\', '\\', '"', 'b', '"'].length := by decide
  have hskip : skipString ['"', 'a', '\\', '"', '\\', '\\', '"', 'b', '"'] 0 = 7 := by decide
  refine ⟨hlength, hskip, ?_⟩
  rcases (skipString_ends_at_paired_quote _ 0 hlength).1 with ⟨q, hleast, hq⟩ | ⟨_, hend⟩
  · have hsix : q = 6 := by omega
    exact hsix ▸ hleast
  · rw [hskip] at hend
    contradiction

end CalcLint
