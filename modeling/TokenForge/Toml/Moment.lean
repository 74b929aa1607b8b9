/-
Dates and times as words: a date, a time of day, or both with or without a
distance from universal time. The parts must name a day of the calendar and
a moment of a day; a leap second is allowed.
-/
namespace TokenForge.Toml

/-- The number of `count` decimal digits, and what follows them. -/
def fixedDigits (count : Nat) (s : List Char) : Option (Nat × List Char) :=
  let ds := s.take count
  if ds.length = count ∧ ds.all Char.isDigit then
    some (ds.foldl (fun n c => n * 10 + (c.toNat - 48)) 0, s.drop count)
  else none

/-- What follows a given character. -/
def afterChar (c : Char) : List Char → Option (List Char)
  | a :: rest => if a = c then some rest else none
  | [] => none

-- ================================================================= dates

/-- Whether a year has a 29th of February. -/
def isLeapYear (year : Nat) : Bool :=
  year % 4 == 0 && (year % 100 != 0 || year % 400 == 0)

/-- How many days a month has; a number that is no month has none. -/
def daysIn (year month : Nat) : Nat :=
  if month = 2 then if isLeapYear year then 29 else 28
  else if month ∈ [4, 6, 9, 11] then 30
  else if 1 ≤ month ∧ month ≤ 12 then 31
  else 0

/-- What follows a date. -/
def skipDate (s : List Char) : Option (List Char) := do
  let (year, s) ← fixedDigits 4 s
  let (month, s) ← fixedDigits 2 (← afterChar '-' s)
  let (day, s) ← fixedDigits 2 (← afterChar '-' s)
  if 1 ≤ day ∧ day ≤ daysIn year month then some s else none

-- ================================================================= times

/-- What follows a fraction of a second. -/
def skipFraction : List Char → Option (List Char)
  | '.' :: s =>
      if s.head?.any Char.isDigit then some (s.dropWhile Char.isDigit)
      else none
  | s => some s

/-- What follows the seconds, which may be missing. -/
def skipSeconds : List Char → Option (List Char)
  | ':' :: s => do
    let (second, s) ← fixedDigits 2 s
    if second ≤ 60 then skipFraction s else none
  | s => some s

/-- What follows hours and minutes. -/
def skipHourMinute (s : List Char) : Option (List Char) := do
  let (hour, s) ← fixedDigits 2 s
  let (minute, s) ← fixedDigits 2 (← afterChar ':' s)
  if hour ≤ 23 ∧ minute ≤ 59 then some s else none

/-- What follows a time of day. -/
def skipTime (s : List Char) : Option (List Char) :=
  do skipSeconds (← skipHourMinute s)

/-- What follows a distance from universal time, which may be missing. -/
def skipOffset : List Char → Option (List Char)
  | 'Z' :: s => some s
  | 'z' :: s => some s
  | '+' :: s => skipHourMinute s
  | '-' :: s => skipHourMinute s
  | s => some s

-- ============================================================== together

/-- Whether a character may stand between a date and a time. -/
def isMomentSeparator (c : Char) : Bool := c == 'T' || c == 't' || c == ' '

/-- What follows a date with or without a time. -/
def skipDateTime (s : List Char) : Option (List Char) := do
  match ← skipDate s with
  | [] => some []
  | c :: rest =>
      if isMomentSeparator c then skipOffset (← skipTime rest) else none

/-- Whether a word is a date, a time or both. -/
def isMoment (word : List Char) : Bool :=
  skipDateTime word == some [] || skipTime word == some []

/-- Whether a word is a date alone. -/
def isDate (word : List Char) : Bool := skipDate word == some []

end TokenForge.Toml
