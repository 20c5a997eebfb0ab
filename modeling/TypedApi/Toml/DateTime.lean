import TypedApi.Text.Digit

/-!
Dates and times of TOML: a date, a time of day, or both and then perhaps the distance from
universal time. Seconds may be missing, and a day is one that its month has.
-/
namespace TypedApi.Toml

structure Date where
  year : Nat
  month : Nat
  day : Nat
deriving DecidableEq, Repr

namespace Date

def isLeap (year : Nat) : Bool := year % 4 == 0 && (year % 100 != 0 || year % 400 == 0)

def daysIn (year month : Nat) : Nat :=
  if month = 2 then (if isLeap year then 29 else 28)
  else if [4, 6, 9, 11].contains month then 30
  else 31

end Date

/-- A time of day; the last minute of a day may have a second more. -/
structure TimeOfDay where
  hour : Nat
  minute : Nat
  second : Nat
  /-- The digits after the point. -/
  fraction : List Char
deriving DecidableEq, Repr

/-- The distance from universal time in minutes. -/
structure ZoneOffset where
  minutes : Int
deriving DecidableEq, Repr

inductive DateTime
  | date (d : Date)
  | time (t : TimeOfDay)
  | both (d : Date) (t : TimeOfDay) (offset : Option ZoneOffset)
deriving DecidableEq, Repr

/-- Reads digits, as many as are asked for and no more. -/
private def readDigits? (count : Nat) (s : List Char) : Option (Nat × List Char) :=
  let digits := s.takeWhile Char.isDigit
  if digits.length = count then some (Text.natural 10 digits, s.drop count) else none

private def readDate? (s : List Char) : Option (Date × List Char) :=
  match readDigits? 4 s with
  | some (year, '-' :: s) =>
    match readDigits? 2 s with
    | some (month, '-' :: s) => do
      let (day, rest) ← readDigits? 2 s
      if 1 ≤ month && month ≤ 12 && 1 ≤ day && day ≤ Date.daysIn year month then
        some (⟨year, month, day⟩, rest)
      else none
    | _ => none
  | _ => none

/-- Reads the seconds and their fraction, if there are any. -/
private def readSeconds? : List Char → Option ((Nat × List Char) × List Char)
  | ':' :: s => do
    let (second, rest) ← readDigits? 2 s
    match rest with
    | '.' :: rest =>
      let fraction := rest.takeWhile Char.isDigit
      if fraction.isEmpty then none else some ((second, fraction), rest.drop fraction.length)
    | _ => some ((second, []), rest)
  | s => some ((0, []), s)

private def readTime? (s : List Char) : Option (TimeOfDay × List Char) :=
  match readDigits? 2 s with
  | some (hour, ':' :: s) => do
    let (minute, s) ← readDigits? 2 s
    let ((second, fraction), rest) ← readSeconds? s
    if hour ≤ 23 && minute ≤ 59 && second ≤ 60 then
      some (⟨hour, minute, second, fraction⟩, rest)
    else none
  | _ => none

/-- What stands after date and time: nothing, or a distance from universal time. -/
private def offset? : List Char → Option (Option ZoneOffset)
  | [] => some none
  | ['Z'] | ['z'] => some (some ⟨0⟩)
  | sign :: s =>
    if sign == '+' || sign == '-' then
      match readDigits? 2 s with
      | some (hours, ':' :: s) =>
        match readDigits? 2 s with
        | some (minutes, []) =>
          if hours ≤ 23 && minutes ≤ 59 then
            let distance : Int := 60 * hours + minutes
            some (some ⟨if sign == '-' then -distance else distance⟩)
          else none
        | _ => none
      | _ => none
    else none

namespace DateTime

private def isSeparator (c : Char) : Bool := c == 'T' || c == 't' || c == ' '

/-- The whole text is a date, a time, or both with one separator between them. -/
def ofChars? (s : List Char) : Option DateTime :=
  match readDate? s with
  | some (d, []) => some (.date d)
  | some (d, c :: s) =>
    if isSeparator c then do
      let (t, s) ← readTime? s
      return .both d t (← offset? s)
    else none
  | none =>
    match readTime? s with
    | some (t, []) => some (.time t)
    | _ => none

def isDate : DateTime → Bool
  | date _ => true
  | _ => false

end DateTime
end TypedApi.Toml
