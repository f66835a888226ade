import CalcLint.Toml.Numeral

/-!
# Dates and times of TOML

A date has four digits for the year and two each for month and day, a time two each for hour, minute
and second and perhaps a fraction of a second, of which six places count. Behind a date may stand a
time, and behind that a distance from universal time. Parts that do not have this shape are left for
other readers.
-/
namespace CalcLint.Toml

/-- A number of exactly `width` decimal digits. -/
def fixedNumber (width : Nat) : Reader Nat := fun source => do
  let ds ← (source.take width).mapM (digitValue? 10)
  if ds.length < width then none
  return (ofDigits 10 ds, source.drop width)

/-- Skip a character that has to stand here. -/
def skipMark (c : Char) (source : List Char) : Option (List Char) :=
  if source.head? = some c then some source.tail else none

/-- A fraction of a second in microseconds; without one there are none. -/
def microseconds (source : List Char) : Nat × List Char :=
  match source with
  | '.' :: rest =>
    let places := rest.takeWhile fun c => (digitValue? 10 c).isSome
    let ds := places.filterMap (digitValue? 10)
    if ds.isEmpty then (0, source)
    else (ofDigits 10 ((ds ++ List.replicate 6 0).take 6), rest.drop places.length)
  | _ => (0, source)

def timeOfDay : Reader TimeOfDay := fun source => do
  let hour ← fixedNumber 2 source
  let minute ← fixedNumber 2 (← skipMark ':' hour.2)
  let second ← fixedNumber 2 (← skipMark ':' minute.2)
  let fraction := microseconds second.2
  let time ← TimeOfDay.ofNumbers? hour.1 minute.1 second.1 fraction.1
  return (time, fraction.2)

/-- A distance from universal time. -/
def offset : Reader Offset := fun source =>
  match source with
  | [] => none
  | c :: rest =>
    if c = 'Z' ∨ c = 'z' then some (.universal, rest)
    else if c = '+' ∨ c = '-' then do
      let hours ← fixedNumber 2 rest
      let minutes ← fixedNumber 2 (← skipMark ':' hours.2)
      let distance ← Offset.ofNumbers? (c = '-') hours.1 minutes.1
      return (distance, minutes.2)
    else none

/-- Year, month and day. No month has more than 31 days, but which have fewer is not asked yet. -/
def dateNumbers : Reader (Nat × Nat × Nat) := fun source => do
  let year ← fixedNumber 4 source
  let month ← fixedNumber 2 (← skipMark '-' year.2)
  let day ← fixedNumber 2 (← skipMark '-' month.2)
  if 1 ≤ month.1 ∧ month.1 ≤ 12 ∧ 1 ≤ day.1 ∧ day.1 ≤ 31 then
    return ((year.1, month.1, day.1), day.2)
  else none

/-- What may stand behind a date. -/
def timeBehindDate : Reader (TimeOfDay × Option Offset) := fun source =>
  match source with
  | [] => none
  | c :: rest =>
    if c = 'T' ∨ c = 't' ∨ c = ' ' then do
      let time ← timeOfDay rest
      match offset time.2 with
      | some zone => return ((time.1, some zone.1), zone.2)
      | none => return ((time.1, none), time.2)
    else none

/-- A date, a moment or a time, if one has its shape here. A date that is in no calendar makes the
document invalid. -/
def moment? (source : List Char) : Option (Except Fault (Value × List Char)) :=
  match dateNumbers source with
  | some ((year, month, day), rest) => some do
    let date ← orInvalid (Date.ofNumbers? year month day)
    match timeBehindDate rest with
    | some ((time, zone), rest) => return (.moment date time zone, rest)
    | none => return (.date date, rest)
  | none => (timeOfDay source).map fun r => .ok (.time r.1, r.2)

/-- A value that is no string and has no parts: dates and times come first, because a number could
begin where they do. -/
def scalar : ValueReader Value := fun source =>
  (moment? source).getD (number source)

end CalcLint.Toml
