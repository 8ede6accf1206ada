import DocQuery.Url.Ipv6
import DocQuery.Url.Path

/-! URLs of schemes with opaque hosts, read from what follows the `//` of their scheme. Their parts
keep the characters and percent escapes that they are written with. -/
namespace DocQuery

structure Url where
  user : List Char
  password : Option (List Char)
  host : List Char
  path : List Char
  query : List Char
  deriving DecidableEq

namespace Url

inductive Fault where
  | emptyHost
  | ipv6Address
  | domainCharacter
  | portNumber
  deriving DecidableEq

def Fault.message : Fault → String
  | .emptyHost => "empty host"
  | .ipv6Address => "invalid IPv6 address"
  | .domainCharacter => "invalid domain character"
  | .portNumber => "invalid port number"

def isIgnored (c : Char) : Bool := c == '\t' || c == '\n' || c == '\r'

/-- The text without trailing blanks and controls, and without tabs and line breaks anywhere. -/
def clean (cs : List Char) : List Char :=
  ((cs.reverse.dropWhile fun c => decide (c ≤ ' ')).reverse).filter fun c => !isIgnored c

def endsAuthority (c : Char) : Bool := c == '/' || c == '?' || c == '#'

/-- User and password; the first colon separates them and an empty password is none. -/
def credentials (userinfo : List Char) : List Char × Option (List Char) :=
  match Text.cutFirst? ':' userinfo with
  | none => (userinfo, none)
  | some (user, []) => (user, none)
  | some (user, password) => (user, some password)

/-- The host and the rest from the first colon outside of brackets. -/
def cutHost (bracketed : Bool) : List Char → List Char × List Char
  | [] => ([], [])
  | c :: cs =>
      if c = ':' ∧ bracketed = false then ([], c :: cs)
      else
        let inside := if c = '[' then true else if c = ']' then false else bracketed
        let (host, rest) := cutHost inside cs
        (c :: host, rest)

def isForbidden (c : Char) : Bool :=
  ['\x00', ' ', '<', '>', '@', '[', '\\', ']', '^', '|'].contains c

def checkHost : List Char → Except Fault Unit
  | '[' :: rest =>
      if rest.getLast? = some ']' ∧ Ipv6.isAddress rest.dropLast then .ok ()
      else .error .ipv6Address
  | host => if host.any isForbidden then .error .domainCharacter else .ok ()

/-- What follows the port, which only a backslash can begin. -/
def skipPort : List Char → Except Fault (List Char)
  | ':' :: cs =>
      let digits := cs.takeWhile Char.isDigit
      let rest := cs.dropWhile Char.isDigit
      if 65535 < Decimal.ofDigits digits then .error .portNumber
      else if rest.isEmpty || rest.head? == some '\\' then .ok rest
      else .error .portNumber
  | rest => .ok rest

/-- The query, which ends at a fragment. -/
def queryOf : List Char → List Char
  | '?' :: cs => cs.takeWhile (· != '#')
  | _ => []

def read (cs : List Char) : Except Fault Url := do
  let cs := clean cs
  let authority := cs.takeWhile fun c => !endsAuthority c
  let tail := cs.dropWhile fun c => !endsAuthority c
  let (userinfo, place) := (Text.cutLast? '@' authority).getD ([], authority)
  if authority = ['@'] ∧ tail ≠ [] then throw .emptyHost
  let (user, password) := credentials userinfo
  let (host, port) := cutHost false place
  checkHost host
  if host = [] ∧ port ≠ [] then throw .emptyHost
  let rest ← skipPort port
  if host = [] ∧ (user ≠ [] ∨ password.isSome) then throw .emptyHost
  let located := rest ++ tail
  let isPath (c : Char) : Bool := c != '?' && c != '#'
  return {
    user, password, host
    path := resolvePath (located.takeWhile isPath)
    query := queryOf (located.dropWhile isPath) }

end Url

end DocQuery
