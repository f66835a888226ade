import CalcLint.Text.Blank

/-!
# Decimal digits of all scripts

Every script writes its ten decimal digits at ten consecutive code points, zero first; the
mathematical alphabets have five such runs side by side.
-/
namespace CalcLint

/-- The code points of the zeros, in increasing order. -/
def digitZeros : List Nat :=
  [0x30, 0x660, 0x6F0, 0x7C0, 0x966, 0x9E6, 0xA66, 0xAE6, 0xB66, 0xBE6, 0xC66, 0xCE6, 0xD66, 0xDE6,
    0xE50, 0xED0, 0xF20, 0x1040, 0x1090, 0x17E0, 0x1810, 0x1946, 0x19D0, 0x1A80, 0x1A90, 0x1B50,
    0x1BB0, 0x1C40, 0x1C50, 0xA620, 0xA8D0, 0xA900, 0xA9D0, 0xA9F0, 0xAA50, 0xABF0, 0xFF10, 0x104A0,
    0x10D30, 0x11066, 0x110F0, 0x11136, 0x111D0, 0x112F0, 0x11450, 0x114D0, 0x11650, 0x116C0,
    0x11730, 0x118E0, 0x11950, 0x11C50, 0x11D50, 0x11DA0, 0x16A60, 0x16AC0, 0x16B50, 0x1D7CE,
    0x1D7D8, 0x1D7E2, 0x1D7EC, 0x1D7F6, 0x1E140, 0x1E2F0, 0x1E950, 0x1FBF0]

/-- Whether a character is a decimal digit of some script. -/
def isDecimalDigit (c : Char) : Bool :=
  digitZeros.any fun first => first ≤ c.toNat && c.toNat < first + 10

/-- Digits with single underscores between them. -/
def isDigitGroup : List Char → Bool
  | [] => false
  | [c] => isDecimalDigit c
  | c :: '_' :: rest => isDecimalDigit c && isDigitGroup rest
  | c :: d :: rest => isDecimalDigit c && isDigitGroup (d :: rest)

/-- The most digits an integer numeral may have. -/
def maxNumeralDigits : Nat := 4300

/-- The blanks that may stand around a numeral: all but the four information separators. -/
def isNumeralBlank (c : Char) : Bool :=
  isBlank c && !(0x1C ≤ c.toNat && c.toNat ≤ 0x1F)

/-- Whether a text is an integer numeral: digits behind an optional sign, with blanks around. -/
def isIntegerNumeral (text : List Char) : Bool :=
  let inner := ((text.dropWhile isNumeralBlank).reverse.dropWhile isNumeralBlank).reverse
  let digits := match inner with
    | '+' :: rest => rest
    | '-' :: rest => rest
    | _ => inner
  isDigitGroup digits && (digits.filter (· != '_')).length ≤ maxNumeralDigits

/-- Drop one line feed from the end. -/
def chopNewline (text : List Char) : List Char :=
  if text.getLast? = some '\n' then text.dropLast else text

/-- Whether an argument is a negative number in digits: `-1`, `-.5` or `-1.5`, perhaps with a line
feed behind it. -/
def isNegativeNumber (text : List Char) : Bool :=
  match chopNewline text with
  | '-' :: rest =>
    match rest.dropWhile isDecimalDigit with
    | [] => !rest.isEmpty
    | '.' :: places => !places.isEmpty && places.all isDecimalDigit
    | _ => false
  | _ => false

end CalcLint
