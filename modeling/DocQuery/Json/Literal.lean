import DocQuery.Json
import DocQuery.Decimal.Digits

/-! Number literals of JSON text. The digits of a float are gathered as long as they fit in 64 bits,
rounded, and scaled by a power of ten. -/
namespace DocQuery.Number

namespace Literal

/-- A decimal `significand * 10 ^ exponent`. -/
structure Gathered where
  significand : Nat
  exponent : Int

def digitValue (c : Char) : Nat := c.toNat - '0'.toNat

def maxSignificand : Nat := 0xFFFFFFFFFFFFFFFF

/-- Adds digits before the point. Once one does not fit, it and all later ones only count as tens. -/
def gatherWhole (g : Gathered) : List Char → Gathered
  | [] => g
  | c :: cs =>
      let next := g.significand * 10 + digitValue c
      if next ≤ maxSignificand then gatherWhole { g with significand := next } cs
      else { g with exponent := g.exponent + (c :: cs).length }

/-- Adds digits after the point, up to the first one that does not fit. -/
def gatherFraction (g : Gathered) : List Char → Gathered
  | [] => g
  | c :: cs =>
      let next := g.significand * 10 + digitValue c
      if next ≤ maxSignificand then gatherFraction ⟨next, g.exponent - 1⟩ cs else g

def float? (negative : Bool) (whole fraction : List Char) (exponent : Int) : Option Number := do
  let g := gatherFraction (gatherWhole ⟨0, 0⟩ whole) fraction
  let x ← Binary64.ofQuotient? negative g.significand 1
  return .float (← x.scale? (g.exponent + exponent))

/-- A literal without fraction and exponent is an integer if it is in range and not `-0`. -/
def integer? (negative : Bool) (whole : List Char) : Option Number :=
  let n : Int := Decimal.ofDigits whole
  let asFloat := float? negative whole [] 0
  if negative then
    if n = 0 then asFloat else (Number.ofInt? (-n)) <|> asFloat
  else (Number.ofInt? n) <|> asFloat

/-- The digits and what follows them, if there is a digit. -/
def digits? (cs : List Char) : Option (List Char × List Char) :=
  match cs.span Char.isDigit with
  | ([], _) => none
  | found => some found

/-- The exponent after its mark, up to the end. -/
def exponent? (cs : List Char) : Option Int := do
  let (negative, cs) := match cs with
    | '-' :: rest => (true, rest)
    | '+' :: rest => (false, rest)
    | rest => (false, rest)
  let (ds, []) ← digits? cs | none
  let n : Int := Decimal.ofDigits ds
  return if negative then -n else n

def isExponentMark (c : Char) : Bool := c == 'e' || c == 'E'

end Literal

open Literal in
/-- The number of a literal; none if it is no number or lies beyond the largest float. -/
def ofLiteral? (cs : List Char) : Option Number := do
  let (negative, cs) := match cs with
    | '-' :: rest => (true, rest)
    | rest => (false, rest)
  let (whole, rest) ← digits? cs
  if whole.length > 1 && whole.head? == some '0' then none
  match rest with
  | [] => integer? negative whole
  | '.' :: rest =>
      let (fraction, rest) ← digits? rest
      match rest with
      | [] => float? negative whole fraction 0
      | mark :: rest =>
          if isExponentMark mark then float? negative whole fraction (← exponent? rest) else none
  | mark :: rest =>
      if isExponentMark mark then float? negative whole [] (← exponent? rest) else none

end DocQuery.Number
