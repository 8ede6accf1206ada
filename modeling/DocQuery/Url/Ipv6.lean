import DocQuery.Text.Cut
import DocQuery.Text.Hex
import DocQuery.Decimal.Digits

/-! Which texts are IPv6 addresses. -/
namespace DocQuery.Ipv6

def isPiece (cs : List Char) : Bool :=
  decide (1 ≤ cs.length) && decide (cs.length ≤ 4) && cs.all fun c => (Hex.value? c).isSome

/-- A number up to 255 without needless zeros. -/
def isDecimalByte (cs : List Char) : Bool :=
  cs.all Char.isDigit && decide (1 ≤ cs.length) && decide (cs.length ≤ 3) &&
    (cs.length == 1 || cs.head? != some '0') && decide (Decimal.ofDigits cs ≤ 255)

def isDottedQuad (cs : List Char) : Bool :=
  let parts := Text.cutAll '.' cs
  parts.length == 4 && parts.all isDecimalByte

/-- The number of sixteen-bit pieces; a dotted quad, allowed only at the end, is two of them. -/
def countPieces? (quadAtEnd : Bool) : List (List Char) → Option Nat
  | [] => some 0
  | [p] => if isPiece p then some 1 else if quadAtEnd && isDottedQuad p then some 2 else none
  | p :: ps => if isPiece p then (countPieces? quadAtEnd ps).map (· + 1) else none

def count? (quadAtEnd : Bool) (cs : List Char) : Option Nat :=
  if cs.isEmpty then some 0 else countPieces? quadAtEnd (Text.cutAll ':' cs)

/-- The parts before and after the first double colon. -/
def cutCompressed? : List Char → Option (List Char × List Char)
  | [] => none
  | c :: cs =>
      match c, cs with
      | ':', ':' :: rest => some ([], rest)
      | _, _ => (cutCompressed? cs).map fun p => (c :: p.1, p.2)

/-- Eight pieces, or fewer than eight around one double colon. -/
def isAddress (cs : List Char) : Bool :=
  match cutCompressed? cs with
  | none => count? true cs == some 8
  | some (before, after) =>
      match count? false before, count? true after with
      | some m, some n => decide (m + n ≤ 7)
      | _, _ => false

end DocQuery.Ipv6
