import DocQuery.Calendar
import DocQuery.Decimal.Digits

/-! Instants of millisecond precision in UTC and their canonical text. -/
namespace DocQuery

/-- `minute` counts whole minutes from 1970-01-01T00:00Z; `second` lies within that minute and is
sixty in a leap second. -/
structure Timestamp where
  minute : Int
  second : Nat
  milli : Nat
  deriving DecidableEq

namespace Timestamp

def ofEpochMillis (n : Int) : Timestamp :=
  ⟨n / 60000, (n % 60000 / 1000).toNat, (n % 1000).toNat⟩

def toEpochMillis (t : Timestamp) : Int := t.minute * 60000 + t.second * 1000 + t.milli

def firstEpochMilli : Int := -8334601228800000

def lastEpochMilli : Int := 8210266876799999

def ofEpochMillis? (n : Int) : Option Timestamp :=
  if firstEpochMilli ≤ n ∧ n ≤ lastEpochMilli then some (ofEpochMillis n) else none

/-- Four digits for the years 0 to 9999; any other year has a sign and at least four digits. -/
def yearText (year : Int) : List Char :=
  if 0 ≤ year ∧ year ≤ 9999 then Decimal.padded 4 year.natAbs
  else (if year < 0 then '-' else '+') :: Decimal.padded 4 year.natAbs

def chars (t : Timestamp) : List Char :=
  let date := Date.ofDays (t.minute / 1440)
  let minuteOfDay := (t.minute % 1440).toNat
  yearText date.year ++ '-' :: Decimal.padded 2 date.month ++ '-' :: Decimal.padded 2 date.day ++
    'T' :: Decimal.padded 2 (minuteOfDay / 60) ++ ':' :: Decimal.padded 2 (minuteOfDay % 60) ++
    ':' :: Decimal.padded 2 t.second ++ '.' :: Decimal.padded 3 t.milli ++ ['Z']

/-- `YYYY-MM-DDTHH:MM:SS.mmmZ`. -/
def text (t : Timestamp) : String := String.ofList t.chars

end Timestamp

end DocQuery
