import EntityStore.Text.Numeral

namespace EntityStore

/-- A day of the proleptic Gregorian calendar. -/
structure Date where
  year : Nat
  month : Nat
  day : Nat
  deriving DecidableEq, Repr

/-- A day and a time of day, with the offset of the clock in seconds if it is known. -/
structure Timestamp where
  date : Date
  hour : Nat
  minute : Nat
  second : Nat
  microsecond : Nat
  offset : Option Int
  deriving DecidableEq, Repr

namespace Date

/-- Days since the first of March of the year zero. Years begin in March, so a leap day ends one. -/
def dayNumber (d : Date) : Int :=
  let year : Int := if d.month ≤ 2 then d.year - 1 else d.year
  let month : Int := if d.month ≤ 2 then d.month + 9 else d.month - 3
  365 * year + Int.fdiv year 4 - Int.fdiv year 100 + Int.fdiv year 400
    + (153 * month + 2) / 5 + d.day - 1

/-- Year, month and day with hyphens between. -/
def display (d : Date) : String :=
  Digits.padded 4 d.year ++ "-" ++ Digits.padded 2 d.month ++ "-" ++ Digits.padded 2 d.day

/-- The form that shows the type as well. -/
def literal (d : Date) : String := s!"datetime.date({d.year}, {d.month}, {d.day})"

def ofChars? (cs : List Char) : Option Date := do
  if cs.length != 10 then none
  let year ← Digits.value? (cs.take 4)
  let month ← Digits.value? ((cs.drop 5).take 2)
  let day ← Digits.value? (cs.drop 8)
  pure ⟨year, month, day⟩

end Date

namespace Timestamp

def isNaive (t : Timestamp) : Bool := t.offset.isNone

/-- Microseconds since the first of March of the year zero, on the clock of the timestamp. -/
def clock (t : Timestamp) : Int :=
  (((t.date.dayNumber * 24 + t.hour) * 60 + t.minute) * 60 + t.second) * 1000000 + t.microsecond

/-- The same in universal time; a naive timestamp is taken to be in it already. -/
def instant (t : Timestamp) : Int := t.clock - t.offset.getD 0 * 1000000

/-- A naive timestamp is taken to be in universal time. -/
def inUniversalTime (t : Timestamp) : Timestamp :=
  { t with offset := some (t.offset.getD 0) }

/-- A naive timestamp never equals one with an offset; those with offsets are equal as instants. -/
def same (s t : Timestamp) : Bool := s.isNaive == t.isNaive && s.instant == t.instant

/-- Sign, hours and minutes of an offset, and its seconds if there are any. -/
def offsetText (offset : Int) : String :=
  let n := offset.natAbs
  (if offset < 0 then "-" else "+") ++ Digits.padded 2 (n / 3600) ++ ":" ++ Digits.padded 2 (n / 60 % 60)
    ++ (if n % 60 = 0 then "" else ":" ++ Digits.padded 2 (n % 60))

/-- Date and time with `separator` between, and a fraction only if it is not zero. -/
def format (separator : String) (t : Timestamp) : String :=
  t.date.display ++ separator ++ Digits.padded 2 t.hour ++ ":" ++ Digits.padded 2 t.minute ++ ":"
    ++ Digits.padded 2 t.second
    ++ (if t.microsecond = 0 then "" else "." ++ Digits.padded 6 t.microsecond)
    ++ (t.offset.elim "" offsetText)

def display (t : Timestamp) : String := t.format " "

/-- An offset as whole days and the seconds ahead of them. -/
def zoneLiteral (offset : Int) : String :=
  if offset = 0 then "datetime.timezone.utc"
  else
    let days := Int.fdiv offset 86400
    let parts := (if days = 0 then [] else [s!"days={days}"])
      ++ (if Int.fmod offset 86400 = 0 then [] else [s!"seconds={Int.fmod offset 86400}"])
    "datetime.timezone(datetime.timedelta(" ++ String.intercalate ", " parts ++ "))"

/-- The form that shows the type as well; trailing zeros of the time are left out. -/
def literal (t : Timestamp) : String :=
  let seconds :=
    if t.microsecond ≠ 0 then [toString t.second, toString t.microsecond]
    else if t.second ≠ 0 then [toString t.second]
    else []
  let zone := match t.offset with
    | some offset => ["tzinfo=" ++ zoneLiteral offset]
    | none => []
  let fields := [toString t.date.year, toString t.date.month, toString t.date.day,
    toString t.hour, toString t.minute] ++ seconds ++ zone
  "datetime.datetime(" ++ String.intercalate ", " fields ++ ")"

def offset? : List Char → Option (Option Int)
  | [] => some none
  | sign :: cs => do
    let hours ← Digits.value? (cs.take 2)
    let minutes ← Digits.value? ((cs.drop 3).take 2)
    let seconds ← Digits.value? ((cs.drop 6).take 2)
    let total : Int := (hours * 60 + minutes) * 60 + seconds
    pure (some (if sign == '-' then -total else total))

/-- Reads what `format` writes with any one-character separator. -/
def ofText? (s : String) : Option Timestamp := do
  let cs := s.toList
  let date ← Date.ofChars? (cs.take 10)
  let hour ← Digits.value? ((cs.drop 11).take 2)
  let minute ← Digits.value? ((cs.drop 14).take 2)
  let second ← Digits.value? ((cs.drop 17).take 2)
  let rest := cs.drop 19
  let fraction := if rest.head? == some '.' then (rest.drop 1).takeWhile Char.isDigit else []
  let micros ← Digits.value? (fraction ++ List.replicate (6 - fraction.length) '0')
  let zone := if rest.head? == some '.' then (rest.drop 1).dropWhile Char.isDigit else rest
  let offset ← offset? zone
  pure ⟨date, hour, minute, second, if fraction.isEmpty then 0 else micros, offset⟩

end Timestamp

end EntityStore
