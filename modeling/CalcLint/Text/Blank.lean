/-!
# Blank characters

The characters that count as white space: the ASCII controls and separators, the space, and the
separators of Unicode. A zero-width space or a byte order mark is not blank.
-/
namespace CalcLint

/-- The code points of the blank characters, as closed intervals in increasing order. -/
def blankRanges : List (Nat × Nat) :=
  [(0x09, 0x0D), (0x1C, 0x20), (0x85, 0x85), (0xA0, 0xA0), (0x1680, 0x1680), (0x2000, 0x200A),
    (0x2028, 0x2029), (0x202F, 0x202F), (0x205F, 0x205F), (0x3000, 0x3000)]

/-- Whether a character is white space. -/
def isBlank (c : Char) : Bool :=
  blankRanges.any fun r => r.1 ≤ c.toNat && c.toNat ≤ r.2

theorem isBlank_comma : isBlank ',' = false := by decide

end CalcLint
