import DocQuery.Json.Literal
import DocQuery.Text.Hex

/-! The tokens of JSON text. -/
namespace DocQuery.Json

inductive Token where
  | openArray
  | closeArray
  | openObject
  | closeObject
  | comma
  | colon
  | text (content : String)
  | scalar (value : Json)

namespace Token

/-- What a character of the text belongs to: nothing yet, a quoted string, or a bare word. Characters
read so far are kept in reverse. -/
inductive Scan where
  | between
  | quoted (read : List Char)
  | escape (read : List Char)
  | word (read : List Char)

def hexQuad? (a b c d : Char) : Option Nat := do
  let a ← Hex.value? a
  let b ← Hex.value? b
  let c ← Hex.value? c
  let d ← Hex.value? d
  return ((a * 16 + b) * 16 + c) * 16 + d

def shortEscape? : Char → Option Nat
  | '"' => some '"'.toNat
  | '\\' => some '\\'.toNat
  | '/' => some '/'.toNat
  | 'b' => some 8
  | 'f' => some 12
  | 'n' => some 10
  | 'r' => some 13
  | 't' => some 9
  | _ => none

/-- The code points of a string's body, where an escape may name half of a surrogate pair. -/
def units? : List Char → Option (List Nat)
  | [] => some []
  | '\\' :: 'u' :: a :: b :: c :: d :: rest => do
      let unit ← hexQuad? a b c d
      return unit :: (← units? rest)
  | '\\' :: c :: rest => do
      let unit ← shortEscape? c
      return unit :: (← units? rest)
  | c :: rest => if c < ' ' then none else do return c.toNat :: (← units? rest)

def isLeading (n : Nat) : Bool := 0xD800 ≤ n && n ≤ 0xDBFF

def isTrailing (n : Nat) : Bool := 0xDC00 ≤ n && n ≤ 0xDFFF

/-- Joins surrogate pairs; a half that stands alone is an error. -/
def joinPairs? : List Nat → Option (List Char)
  | [] => some []
  | [n] => if isLeading n || isTrailing n then none else some [Char.ofNat n]
  | m :: n :: rest =>
      if isLeading m then
        if isTrailing n then do
          let c := Char.ofNat (0x10000 + (m - 0xD800) * 0x400 + (n - 0xDC00))
          return c :: (← joinPairs? rest)
        else none
      else if isTrailing m then none
      else do return Char.ofNat m :: (← joinPairs? (n :: rest))

def unquote? (body : List Char) : Option String := do
  let units ← units? body
  return String.ofList (← joinPairs? units)

def ofWord? (word : List Char) : Option Token :=
  if word = "null".toList then some (.scalar .null)
  else if word = "true".toList then some (.scalar (.bool true))
  else if word = "false".toList then some (.scalar (.bool false))
  else (Number.ofLiteral? word).map fun n => .scalar (.number n)

def ofMark? : Char → Option Token
  | '[' => some .openArray
  | ']' => some .closeArray
  | '{' => some .openObject
  | '}' => some .closeObject
  | ',' => some .comma
  | ':' => some .colon
  | _ => none

def isBlank (c : Char) : Bool := c == ' ' || c == '\t' || c == '\n' || c == '\r'

/-- The state and the tokens after a character outside of a string. -/
def betweenStep? (c : Char) : Option (Scan × List Token) :=
  if isBlank c then some (.between, [])
  else if c = '"' then some (.quoted [], [])
  else match ofMark? c with
    | some token => some (.between, [token])
    | none => some (.word [c], [])

def step? : Scan → Char → Option (Scan × List Token)
  | .between, c => betweenStep? c
  | .quoted read, c =>
      if c = '"' then do return (.between, [.text (← unquote? read.reverse)])
      else if c = '\\' then some (.escape (c :: read), [])
      else some (.quoted (c :: read), [])
  | .escape read, c => some (.quoted (c :: read), [])
  | .word read, c =>
      if isBlank c || c == '"' || (ofMark? c).isSome then do
        let token ← ofWord? read.reverse
        let (next, tokens) ← betweenStep? c
        return (next, token :: tokens)
      else some (.word (c :: read), [])

def finish? : Scan → Option (List Token)
  | .between => some []
  | .word read => do return [← ofWord? read.reverse]
  | .quoted _ => none
  | .escape _ => none

/-- The tokens of the rest of a text, given the state that its start has led to. -/
def scan? : Scan → List Char → Option (List Token)
  | state, [] => finish? state
  | state, c :: cs => do
      let (next, tokens) ← step? state c
      return tokens ++ (← scan? next cs)

end Token

def tokens? (text : String) : Option (List Token) := Token.scan? .between text.toList

end DocQuery.Json
