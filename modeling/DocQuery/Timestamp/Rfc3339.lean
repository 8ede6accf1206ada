import DocQuery.Timestamp

/-! Reading RFC 3339 timestamps with any offset. Each step returns what it read and the rest. -/
namespace DocQuery.Timestamp

inductive Fault where
  | outOfRange
  | invalidCharacters
  | tooShort
  | trailing
  deriving DecidableEq

def Fault.message : Fault → String
  | .outOfRange => "input is out of range"
  | .invalidCharacters => "input contains invalid characters"
  | .tooShort => "premature end of input"
  | .trailing => "trailing input"

namespace Rfc3339

/-- A number of exactly `width` digits. -/
def number (width : Nat) (cs : List Char) : Except Fault (Nat × List Char) :=
  let ds := cs.take width
  if ds.length = width ∧ ds.all Char.isDigit then .ok (Decimal.ofDigits ds, cs.drop width)
  else .error .invalidCharacters

def skip (p : Char → Bool) : List Char → Except Fault (List Char)
  | [] => .error .invalidCharacters
  | c :: cs => if p c then .ok cs else .error .invalidCharacters

def isTimeMark (c : Char) : Bool := c == 'T' || c == 't' || c == ' '

/-- The day number; years have four digits and the date must exist. -/
def day (cs : List Char) : Except Fault (Int × List Char) := do
  let (year, cs) ← number 4 cs
  let cs ← skip (· == '-') cs
  let (month, cs) ← number 2 cs
  let cs ← skip (· == '-') cs
  let (day, cs) ← number 2 cs
  let date : Date := ⟨year, month, day⟩
  if date.isValid then .ok (date.toDays, cs) else .error .outOfRange

structure Clock where
  hour : Nat
  minute : Nat
  second : Nat

def Clock.isValid (c : Clock) : Bool :=
  decide (c.hour ≤ 23) && decide (c.minute ≤ 59) && decide (c.second ≤ 60)

def clock (cs : List Char) : Except Fault (Clock × List Char) := do
  let cs ← skip isTimeMark cs
  let (hour, cs) ← number 2 cs
  let cs ← skip (· == ':') cs
  let (minute, cs) ← number 2 cs
  let cs ← skip (· == ':') cs
  let (second, cs) ← number 2 cs
  return (⟨hour, minute, second⟩, cs)

/-- The milliseconds of a fraction of any length, cut off after three digits. -/
def fraction : List Char → Except Fault (Nat × List Char)
  | '.' :: cs =>
      match cs.span Char.isDigit with
      | ([], []) => .error .tooShort
      | ([], _) => .error .invalidCharacters
      | (ds, rest) => .ok (Decimal.ofDigits ((ds ++ ['0', '0']).take 3), rest)
  | cs => .ok (0, cs)

def utf8Length : List Char → Nat
  | [] => 0
  | c :: cs => c.utf8Size + utf8Length cs

/-- The minutes of an offset, where sixty and more count as out of range. -/
def offsetMinutes (cs : List Char) : Except Fault (Nat × List Char) :=
  if utf8Length cs < 2 then .error .tooShort
  else match cs with
    | a :: b :: rest =>
        if a.isDigit && b.isDigit then
          if '6' ≤ a then .error .outOfRange else .ok (Decimal.ofDigits [a, b], rest)
        else .error .invalidCharacters
    | _ => .error .invalidCharacters

/-- The size of an offset in minutes, after its sign. -/
def offsetSize (cs : List Char) : Except Fault (Nat × List Char) := do
  if utf8Length cs < 2 then throw .tooShort
  let (hours, cs) ← number 2 cs
  if cs.isEmpty then throw .tooShort
  let cs ← skip (· == ':') cs
  let (minutes, cs) ← offsetMinutes cs
  return (hours * 60 + minutes, cs)

/-- Minutes east of UTC; the minus sign may be a hyphen or U+2212. -/
def offset : List Char → Except Fault (Int × List Char)
  | [] => .error .tooShort
  | c :: cs =>
      if c = 'Z' ∨ c = 'z' then .ok (0, cs)
      else if c = '+' then do
        let (size, cs) ← offsetSize cs
        return (size, cs)
      else if c = '-' ∨ c = '\u2212' then do
        let (size, cs) ← offsetSize cs
        return (-size, cs)
      else .error .invalidCharacters

def read (cs : List Char) : Except Fault Timestamp := do
  if utf8Length cs < 19 then throw .tooShort
  let (day, cs) ← day cs
  let (clock, cs) ← clock cs
  let (milli, cs) ← fraction cs
  if !clock.isValid then throw .outOfRange
  let (offset, cs) ← offset cs
  if !cs.isEmpty then throw .trailing
  if 1440 ≤ offset.natAbs then throw .outOfRange
  return ⟨day * 1440 + clock.hour * 60 + clock.minute - offset, clock.second, milli⟩

end Rfc3339

/-- The instant of an RFC 3339 text. -/
def ofText (text : String) : Except Fault Timestamp := Rfc3339.read text.toList

end DocQuery.Timestamp
