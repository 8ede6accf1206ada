import DocQuery.Json
import DocQuery.Decimal.Digits
import DocQuery.Decimal.Shortest
import DocQuery.Text.Hex

/-! The compact text of a JSON value: no blanks, keys in kept order. -/
namespace DocQuery

/-- Where a positive decimal is written without an exponent: its point stands after at most `digits`
digits, or before its first one with fewer than `zeros` zeros between. -/
structure PlainRange where
  digits : Nat
  zeros : Nat

namespace PlainRange

/-- An integral value keeps `.0`; an exponent always has a sign. -/
def write (range : PlainRange) (decimal : Decimal.Scientific) : List Char :=
  let ds := Decimal.natText decimal.digits
  let point := decimal.point
  if 0 < point ∧ point ≤ range.digits then
    let n := point.toNat
    if ds.length ≤ n then ds ++ List.replicate (n - ds.length) '0' ++ ['.', '0']
    else ds.take n ++ '.' :: ds.drop n
  else if -(range.zeros : Int) < point ∧ point ≤ 0 then
    '0' :: '.' :: (List.replicate (-point).toNat '0' ++ ds)
  else
    let fraction := if ds.length ≤ 1 then [] else '.' :: ds.drop 1
    let exponent := point - 1
    let sign := if exponent < 0 then '-' else '+'
    ds.take 1 ++ fraction ++ 'e' :: sign :: Decimal.natText exponent.natAbs

end PlainRange

/-- A JSON float is written plainly from `0.00001` up to sixteen digits before its point. -/
def Json.plainRange : PlainRange := ⟨16, 5⟩

def Binary64.text (x : Binary64) : String :=
  let magnitude := if x.isZero then ['0', '.', '0'] else Json.plainRange.write (Decimal.shortest x)
  String.ofList (if x.negative then '-' :: magnitude else magnitude)

def Number.text : Number → String
  | .int i _ => String.ofList (Decimal.intText i)
  | .float x => x.text

namespace Json

/-- Quotes, backslashes and code points below U+0020 are escaped, and nothing else. -/
def escape (c : Char) : List Char :=
  if c = '"' then ['\\', '"']
  else if c = '\\' then ['\\', '\\']
  else if c = '\x08' then ['\\', 'b']
  else if c = '\t' then ['\\', 't']
  else if c = '\n' then ['\\', 'n']
  else if c = '\x0c' then ['\\', 'f']
  else if c = '\r' then ['\\', 'r']
  else if c < ' ' then
    ['\\', 'u', '0', '0', Hex.lower (c.toNat / 16), Hex.lower (c.toNat % 16)]
  else [c]

def quote (text : String) : String :=
  "\"" ++ String.ofList (text.toList.flatMap escape) ++ "\""

mutual

def text : Json → String
  | .null => "null"
  | .bool true => "true"
  | .bool false => "false"
  | .number n => n.text
  | .string s => quote s
  | .array items => "[" ++ ",".intercalate (itemTexts items) ++ "]"
  | .object members => "\x7b" ++ ",".intercalate (memberTexts members) ++ "\x7d"

def itemTexts : List Json → List String
  | [] => []
  | item :: items => text item :: itemTexts items

def memberTexts : List (String × Json) → List String
  | [] => []
  | (key, value) :: members => (quote key ++ ":" ++ text value) :: memberTexts members

end

end Json

end DocQuery
