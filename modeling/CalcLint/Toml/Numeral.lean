import CalcLint.Text.Digit
import CalcLint.Toml.Lexeme
import CalcLint.Value

/-!
# Numerals of TOML

Integers in four bases and floating-point numbers. Digits may be grouped by single underscores; a
decimal integer has no leading zero and not too many digits.
-/
namespace CalcLint.Toml

/-- The value of a digit below `base`. -/
def digitValue? (base : Nat) (c : Char) : Option Nat :=
  (hexValue? c).filter (· < base)

/-- The digits behind a first one, with single underscores between them. -/
def moreDigits (base : Nat) : List Char → List Nat × List Char
  | [] => ([], [])
  | [c] =>
    match digitValue? base c with
    | some d => ([d], [])
    | none => ([], [c])
  | c :: d :: rest =>
    match digitValue? base c with
    | some v =>
      let more := moreDigits base (d :: rest)
      (v :: more.1, more.2)
    | none =>
      if c = '_' then
        match digitValue? base d with
        | some v =>
          let more := moreDigits base rest
          (v :: more.1, more.2)
        | none => ([], c :: d :: rest)
      else ([], c :: d :: rest)

def digits (base : Nat) : Reader (List Nat) := fun source =>
  match source with
  | [] => none
  | c :: rest =>
    (digitValue? base c).map fun v =>
      let more := moreDigits base rest
      (v :: more.1, more.2)

def ofDigits (base : Nat) (ds : List Nat) : Nat :=
  ds.foldl (fun n d => base * n + d) 0

/-- The base that a mark behind a zero announces. -/
def baseOfMark? : Char → Option Nat
  | 'x' => some 16
  | 'o' => some 8
  | 'b' => some 2
  | _ => none

/-- An integer in a base other than ten. -/
def basedInteger : Reader Nat := fun source =>
  match source with
  | '0' :: mark :: rest => do
    let base ← baseOfMark? mark
    let r ← digits base rest
    return (ofDigits base r.1, r.2)
  | _ => none

/-- An optional sign; tells whether it is a minus. -/
def sign : List Char → Bool × List Char
  | '-' :: rest => (true, rest)
  | '+' :: rest => (false, rest)
  | source => (false, source)

/-- The digits of a decimal integer: a lone zero, or no zero in front. -/
def wholePart : Reader (List Nat) := fun source =>
  match source with
  | '0' :: rest => some ([0], rest)
  | _ => digits 10 source

/-- A point with digits behind it, if there is one. -/
def fraction (source : List Char) : Option (List Nat × List Char) :=
  match source with
  | '.' :: rest => digits 10 rest
  | _ => none

def exponent (source : List Char) : Option (Int × List Char) :=
  match source with
  | c :: rest =>
    if c = 'e' ∨ c = 'E' then do
      let s := sign rest
      let r ← digits 10 s.2
      let n : Int := ofDigits 10 r.1
      return (if s.1 then -n else n, r.2)
    else none
  | [] => none

def decimalInteger (negative : Bool) (ds : List Nat) : Except Fault Value :=
  if maxNumeralDigits < ds.length then .error (.longInteger ds.length)
  else
    let n : Int := ofDigits 10 ds
    .ok (.int (if negative then -n else n))

/-- A decimal numeral with the whole part `whole`; a fraction or an exponent behind it makes it a
floating-point number. -/
def decimal (negative : Bool) (whole : List Nat) : ValueReader Value := fun source => do
  let places := fraction source
  let rest := places.elim source (·.2)
  let power := exponent rest
  let rest := power.elim rest (·.2)
  if places.isNone && power.isNone then
    return (← decimalInteger negative whole, rest)
  else
    let behind := places.elim [] (·.1)
    let coefficient := ofDigits 10 (whole ++ behind)
    let power := power.elim 0 (·.1) - (behind.length : Int)
    return (.real (.ofDecimal negative coefficient power), rest)

/-- Infinity and the value that is no number. -/
def special : Reader Value := fun source =>
  let s := sign source
  match s.2 with
  | 'i' :: 'n' :: 'f' :: rest => some (.real (.infinite s.1), rest)
  | 'n' :: 'a' :: 'n' :: rest => some (.real .notANumber, rest)
  | _ => none

def number : ValueReader Value := fun source =>
  match basedInteger source with
  | some r => .ok (.int r.1, r.2)
  | none =>
    let s := sign source
    match wholePart s.2 with
    | some whole => decimal s.1 whole.1 whole.2
    | none => orInvalid (special source)

end CalcLint.Toml
