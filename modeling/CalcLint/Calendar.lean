/-!
# Dates and times

What a configuration value may say about time: a day of the calendar, a time of the day, and a
moment that has both. A moment may know how far it is from universal time. Days, times and distances
that do not exist cannot be built.
-/
namespace CalcLint

def isLeapYear (year : Nat) : Bool :=
  year % 4 == 0 && (year % 100 != 0 || year % 400 == 0)

def daysInMonth (year month : Nat) : Nat :=
  if month = 2 then if isLeapYear year then 29 else 28
  else if month ∈ [4, 6, 9, 11] then 30
  else 31

/-- A day of the Gregorian calendar, in a year of at most four digits. -/
structure Date where
  year : Nat
  month : Nat
  day : Nat
  year_bounds : 1 ≤ year ∧ year ≤ 9999
  month_bounds : 1 ≤ month ∧ month ≤ 12
  day_bounds : 1 ≤ day ∧ day ≤ daysInMonth year month
  deriving DecidableEq, Repr

def Date.ofNumbers? (year month day : Nat) : Option Date :=
  if h : (1 ≤ year ∧ year ≤ 9999) ∧ (1 ≤ month ∧ month ≤ 12) ∧
      1 ≤ day ∧ day ≤ daysInMonth year month then
    some ⟨year, month, day, h.1, h.2.1, h.2.2⟩
  else none

/-- A time of the day, without leap seconds. -/
structure TimeOfDay where
  hour : Nat
  minute : Nat
  second : Nat
  microsecond : Nat
  hour_lt : hour < 24
  minute_lt : minute < 60
  second_lt : second < 60
  microsecond_lt : microsecond < 1000000
  deriving DecidableEq, Repr

def TimeOfDay.ofNumbers? (hour minute second microsecond : Nat) : Option TimeOfDay :=
  if h : hour < 24 ∧ minute < 60 ∧ second < 60 ∧ microsecond < 1000000 then
    some ⟨hour, minute, second, microsecond, h.1, h.2.1, h.2.2.1, h.2.2.2⟩
  else none

/-- A distance from universal time in minutes. -/
structure Offset where
  minutes : Int
  minutes_lt : minutes.natAbs < 24 * 60
  deriving DecidableEq, Repr

def Offset.universal : Offset :=
  ⟨0, by decide⟩

def Offset.ofNumbers? (behind : Bool) (hours minutes : Nat) : Option Offset :=
  if h : hours < 24 ∧ minutes < 60 then
    let distance : Int := 60 * hours + minutes
    some ⟨if behind then -distance else distance, by grind⟩
  else none

/-- Show a value as the call that makes it. -/
def showCall (maker : String) (arguments : List String) : String :=
  maker ++ "(" ++ ", ".intercalate arguments ++ ")"

def Date.fields (d : Date) : List String :=
  [d.year, d.month, d.day].map toString

/-- The parts of a time; seconds and microseconds are left out from the end while they are zero. -/
def TimeOfDay.fields (t : TimeOfDay) : List String :=
  let behind :=
    if t.microsecond ≠ 0 then [t.second, t.microsecond]
    else if t.second ≠ 0 then [t.second]
    else []
  (t.hour :: t.minute :: behind).map toString

def Date.render (d : Date) : String :=
  showCall "datetime.date" d.fields

def TimeOfDay.render (t : TimeOfDay) : String :=
  showCall "datetime.time" t.fields

/-- Show a distance from universal time. A negative one is shown as a day less and the seconds that
are then too many. -/
def Offset.render (o : Offset) : String :=
  let seconds := 60 * o.minutes
  if seconds = 0 then "datetime.timezone.utc"
  else
    let distance :=
      if seconds < 0 then ["days=-1", s!"seconds={24 * 60 * 60 + seconds}"]
      else [s!"seconds={seconds}"]
    showCall "datetime.timezone" [showCall "datetime.timedelta" distance]

def renderMoment (d : Date) (t : TimeOfDay) (offset : Option Offset) : String :=
  let zone := offset.elim [] fun o => ["tzinfo=" ++ o.render]
  showCall "datetime.datetime" (d.fields ++ t.fields ++ zone)

end CalcLint
