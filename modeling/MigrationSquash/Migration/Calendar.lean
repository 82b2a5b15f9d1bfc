import MigrationSquash.Text.Basic

/-!
# Timestamps

Fourteen digits that name a second of the Gregorian calendar: four for the year and two
each for month, day, hour, minute and second.
-/

set_option autoImplicit false

namespace MigrationSquash.Calendar

def isLeapYear (year : Nat) : Bool :=
  year % 4 == 0 && (year % 100 != 0 || year % 400 == 0)

/-- The number of days of a month, none for a number that is no month. -/
def daysInMonth (year month : Nat) : Nat :=
  match month with
  | 1 | 3 | 5 | 7 | 8 | 10 | 12 => 31
  | 4 | 6 | 9 | 11 => 30
  | 2 => if isLeapYear year then 29 else 28
  | _ => 0

/-- The number that decimal digits write. -/
def number (digits : Text) : Nat :=
  digits.foldl (fun n c => n * 10 + (c.toNat - '0'.toNat)) 0

/-- Whether the digits of a timestamp name a second.  A minute may have a leap second. -/
def isTimestamp (digits : Text) : Bool :=
  let field := fun (start length : Nat) => number ((digits.drop start).take length)
  digits.length == 14 && digits.all Char.isDigit &&
    1 ≤ field 6 2 && field 6 2 ≤ daysInMonth (field 0 4) (field 4 2) &&
    field 8 2 ≤ 23 && field 10 2 ≤ 59 && field 12 2 ≤ 60

end MigrationSquash.Calendar
