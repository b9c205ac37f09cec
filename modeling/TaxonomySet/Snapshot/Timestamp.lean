import TaxonomySet.Text.Blank

namespace TaxonomySet.Timestamp

/-- Leaves out blanks. -/
def skipBlanks (cs : List Char) : List Char := cs.dropWhile Text.isBlank

/-- The number that digits write. -/
def valueOf (ds : List Char) : Nat := ds.foldl (fun n c => n * 10 + (c.toNat - 48)) 0

/-- A number of at most `width` digits after blanks, and the rest. -/
def number? (width : Nat) (cs : List Char) : Option (Nat × List Char) :=
  let cs := skipBlanks cs
  let ds := (cs.take width).takeWhile Char.isDigit
  if ds.isEmpty then none else some (valueOf ds, cs.drop ds.length)

/-- A year after blanks. A year with a sign may have any number of digits, other years have at most
four. -/
def year? (cs : List Char) : Option (Int × List Char) :=
  match skipBlanks cs with
  | '-' :: r => signed r fun n => -n
  | '+' :: r => signed r id
  | r => (number? 4 r).map fun (n, r) => (n, r)
where
  /-- All digits there are, without blanks before them. -/
  signed (r : List Char) (f : Int → Int) : Option (Int × List Char) :=
    let ds := r.takeWhile Char.isDigit
    if ds.isEmpty then none else some (f (valueOf ds), r.dropWhile Char.isDigit)

/-- A mark after blanks. -/
def mark? (mark : Char) (cs : List Char) : Option (List Char) :=
  match skipBlanks cs with
  | c :: r => if c = mark then some r else none
  | [] => none

/-- Whether a year has a day more. -/
def isLeap (year : Int) : Bool := year % 4 == 0 && (year % 100 != 0 || year % 400 == 0)

/-- The number of days in a month. -/
def daysIn (year : Int) (month : Nat) : Nat :=
  if month = 2 then if isLeap year then 29 else 28
  else if month = 4 ∨ month = 6 ∨ month = 9 ∨ month = 11 then 30
  else 31

/-- A date that there is, in a year of at most six digits. -/
def date? (cs : List Char) : Option (List Char) := do
  let (year, cs) ← year? cs
  let cs ← mark? '-' cs
  let (month, cs) ← number? 2 cs
  let cs ← mark? '-' cs
  let (day, cs) ← number? 2 cs
  if -262143 ≤ year ∧ year ≤ 262142 ∧ 1 ≤ month ∧ month ≤ 12 ∧ 1 ≤ day ∧ day ≤ daysIn year month then
    some cs
  else none

/-- The fraction of a second, if there is one. -/
def fraction? : List Char → Option (List Char)
  | '.' :: r => if (r.takeWhile Char.isDigit).isEmpty then none else some (r.dropWhile Char.isDigit)
  | cs => some cs

/-- A time of day; a minute may have a second more. -/
def time? (cs : List Char) : Option (List Char) := do
  let (hour, cs) ← number? 2 cs
  let cs ← mark? ':' cs
  let (minute, cs) ← number? 2 cs
  let cs ← mark? ':' cs
  let (second, cs) ← number? 2 cs
  let cs ← fraction? cs
  if hour < 24 ∧ minute < 60 ∧ second ≤ 60 then some cs else none

/-- Two digits. -/
def pair? : List Char → Option (Nat × List Char)
  | a :: b :: r => if a.isDigit && b.isDigit then some (valueOf [a, b], r) else none
  | _ => none

/-- A distance from universal time of less than a day. -/
def offset? (cs : List Char) : Option (List Char) :=
  match cs with
  | [] => none
  | sign :: r =>
    if sign = 'Z' ∨ sign = 'z' then some r
    else if (cs.take 3).map Char.toUpper = ['U', 'T', 'C'] then some (cs.drop 3)
    else if sign = '+' ∨ sign = '-' ∨ sign = Char.ofNat 0x2212 then do
      let (hours, r) ← pair? r
      let (minutes, r) ← pair? (r.dropWhile fun c => c == ':' || Text.isBlank c)
      if hours < 24 ∧ minutes < 60 then some r else none
    else none

/-- Whether a text is a point in time. It is a date, a time of day and a distance from universal time, such as
`2024-01-31T12:30:00.5+01:00`. -/
def isTimestamp (s : String) : Bool :=
  let rest := do
    let cs ← date? s.toList
    let cs ← match cs with
      | 't' :: r | 'T' :: r | ' ' :: r => some r
      | _ => none
    let cs ← time? cs
    offset? (skipBlanks cs)
  match rest with
  | some r => r.all Text.isBlank
  | none => false

/-- The number of days in a year. -/
def daysInYear (year : Nat) : Nat := if isLeap year then 366 else 365

/-- The year and the day in it, counted from zero, of a day counted from the start of `year`. -/
def yearFrom (year days : Nat) : Nat × Nat :=
  if daysInYear year ≤ days then yearFrom (year + 1) (days - daysInYear year) else (year, days)
termination_by days
decreasing_by
  have : 0 < daysInYear year := by unfold daysInYear; split <;> omega
  omega

/-- The month and the day in it, counted from one, of a day counted from the start of `month`. -/
def monthFrom (year month days : Nat) : Nat × Nat :=
  if month < 12 ∧ daysIn year month ≤ days then monthFrom year (month + 1) (days - daysIn year month)
  else (month, days + 1)
termination_by 12 - month

/-- A number in at least two digits. -/
def twoDigits (n : Nat) : String := (if n < 10 then "0" else "") ++ toString n

/-- The point in time so many seconds behind the start of 1970, in universal time. -/
def ofSeconds (seconds : Nat) : String :=
  let (year, days) := yearFrom 1970 (seconds / 86400)
  let (month, day) := monthFrom year 1 days
  let second := seconds % 86400
  toString year ++ "-" ++ twoDigits month ++ "-" ++ twoDigits day ++ "T" ++ twoDigits (second / 3600) ++
    ":" ++ twoDigits (second / 60 % 60) ++ ":" ++ twoDigits (second % 60) ++ "Z"

end TaxonomySet.Timestamp
