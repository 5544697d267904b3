import Montage.Decimal.Reader
import Montage.Edit.Canvas
import Montage.Path

/-!
# Output paths

Where a clip is written when the edit does not say: beside the source or in a given directory,
named for the source, the canvas and the time.
-/

namespace Montage

/-- A date and a time of day, without time zone. -/
structure Instant where
  year : Nat
  month : Nat
  day : Nat
  hour : Nat
  minute : Nat
  second : Nat
  deriving DecidableEq, Repr

/-- A time as `YYYYMMDDTHHMMSSZ`; a year of more than four digits has a sign. -/
def Instant.stamp (t : Instant) : String :=
  let two (n : Nat) : List Char := Decimal.padded 2 n
  String.ofList ((if 9999 < t.year then ['+'] else []) ++ Decimal.padded 4 t.year ++ two t.month ++
    two t.day ++ ['T'] ++ two t.hour ++ two t.minute ++ two t.second ++ ['Z'])

/-- The path of a clip that is not named. -/
def derivedOutputPath (source : String) (canvas : Canvas) (outputDir : Option String)
    (now : Instant) : String :=
  let stem := (Path.fileStem? source).getD "clip"
  let dir :=
    match outputDir with
    | some dir => dir
    | none => ((Path.parent? source).filter (· ≠ "")).getD "."
  Path.join dir s!"{stem}_{canvas.slug}_{now.stamp}.mp4"

end Montage

/-!
## The calendar

The date and time of a number of seconds since the beginning of 1970, in the Gregorian calendar
without leap seconds. Days are counted from the first of March of the year zero, so that the leap
day is the last one of its year, and in cycles of 400 years.
-/

namespace Montage.Calendar

/-- The days from the first of March of the year zero to the first of January 1970. -/
def epochDays : Nat := 719468

/-- The days of a cycle of 400 years. -/
def cycleDays : Nat := 146097

/-- The year of a day of a cycle, within the cycle. -/
def yearOfCycle (day : Nat) : Nat := (day - day / 1460 + day / 36524 - day / 146096) / 365

/-- The first day of a year of a cycle. -/
def firstDay (year : Nat) : Nat := 365 * year + year / 4 - year / 100

/-- The instant of a number of seconds since the beginning of 1970. -/
def instantOf (seconds : Nat) : Instant :=
  let days := seconds / 86400 + epochDays
  let rest := seconds % 86400
  let inCycle := days % cycleDays
  let year := yearOfCycle inCycle
  let inYear := inCycle - firstDay year
  let fromMarch := (5 * inYear + 2) / 153
  let month := if fromMarch < 10 then fromMarch + 3 else fromMarch - 9
  { year := 400 * (days / cycleDays) + year + if month ≤ 2 then 1 else 0
    month
    day := inYear - (153 * fromMarch + 2) / 5 + 1
    hour := rest / 3600
    minute := rest % 3600 / 60
    second := rest % 60 }

example : (instantOf 951782399).stamp = "20000228T235959Z" ∧
    (instantOf 951868800).stamp = "20000301T000000Z" ∧
    (instantOf 0).stamp = "19700101T000000Z" := by decide +kernel

end Montage.Calendar
