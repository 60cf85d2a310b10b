/-!
The times at which files were indexed: moments in whole seconds since the beginning of 1970, and
their text in universal time. The text has a year of four digits, or of more with a sign when the
year is below 0 or above 9999. Years beyond a quarter of a million in either direction have no text
of their own: such a moment is shown as the first one of 1970. Left out are leap seconds and time
zones.
-/
namespace HandlerIndex.Timestamp

structure Date where
  year : Int
  month : Int
  day : Int
  deriving DecidableEq, Repr

-- The calendar repeats after 400 years, which are 146097 days. The years here begin in March, so
-- that the day that some of them have more is their last one.
def dateOfDay (day : Int) : Date :=
  let shifted := day + 719468
  let era := shifted.fdiv 146097
  let dayOfEra := shifted - era * 146097
  let yearOfEra := (dayOfEra - dayOfEra / 1460 + dayOfEra / 36524 - dayOfEra / 146096) / 365
  let dayOfYear := dayOfEra - (365 * yearOfEra + yearOfEra / 4 - yearOfEra / 100)
  let monthFromMarch := (5 * dayOfYear + 2) / 153
  let month := if monthFromMarch < 10 then monthFromMarch + 3 else monthFromMarch - 9
  { year := yearOfEra + era * 400 + (if month ≤ 2 then 1 else 0)
    month := month
    day := dayOfYear - (153 * monthFromMarch + 2) / 5 + 1 }

def padded (width : Nat) (n : Nat) : String :=
  let digits := Nat.toDigits 10 n
  String.ofList (List.replicate (width - digits.length) '0' ++ digits)

def yearText (year : Int) : String :=
  if 0 ≤ year ∧ year ≤ 9999 then padded 4 year.toNat
  else (if year < 0 then "-" else "+") ++ padded 4 year.natAbs

def firstYear : Int := -262143

def lastYear : Int := 262142

def text (date : Date) (secondOfDay : Nat) : String :=
  yearText date.year ++ "-" ++ padded 2 date.month.toNat ++ "-" ++ padded 2 date.day.toNat ++ "T"
    ++ padded 2 (secondOfDay / 3600) ++ ":" ++ padded 2 (secondOfDay / 60 % 60) ++ ":"
    ++ padded 2 (secondOfDay % 60) ++ "Z"

def render (seconds : Int) : String :=
  let date := dateOfDay (seconds.fdiv 86400)
  if firstYear ≤ date.year ∧ date.year ≤ lastYear then text date (seconds.fmod 86400).toNat
  else text ⟨1970, 1, 1⟩ 0

end HandlerIndex.Timestamp
