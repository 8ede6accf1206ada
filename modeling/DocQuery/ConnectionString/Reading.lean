import DocQuery.ConnectionString
import DocQuery.Url

/-! Reading connection strings. A text without a scheme is read as one of the default scheme. -/
namespace DocQuery.ConnectionString

inductive Fault where
  | otherScheme (found : String)
  | emptyHost
  | url (fault : Url.Fault)
  | host (seed : String) (fault : Url.Fault)
  | encoding (fault : Utf8.Fault)
  deriving DecidableEq

def Fault.message : Fault → String
  | .otherScheme found => "expected scheme `" ++ scheme ++ "`, but got `" ++ found ++ "`"
  | .emptyHost => "at least one host is required and host names cannot be empty"
  | .url fault => fault.message
  | .host seed fault => "invalid host `" ++ seed ++ "`: " ++ fault.message
  | .encoding fault => fault.message

def isSchemeChar (c : Char) : Bool := c.isAlphanum || c == '+' || c == '.' || c == '-'

/-- The scheme and what follows its `://`. -/
def cutScheme? : List Char → Option (List Char × List Char)
  | [] => none
  | c :: cs =>
      if c.isAlpha then
        match cs.dropWhile isSchemeChar with
        | ':' :: '/' :: '/' :: rest => some (c :: cs.takeWhile isSchemeChar, rest)
        | _ => none
      else none

def decode (cs : List Char) : Except Fault String := (Percent.decode cs).mapError .encoding

/-- An empty part counts as absent. -/
def decodeNonempty (cs : List Char) : Except Fault (Option String) :=
  if cs.isEmpty then .ok none else some <$> decode cs

def readOption (pair : List Char) : Except Fault (String × String) := do
  let (key, value) := (Text.cutFirst? '=' pair).getD (pair, [])
  return (← decode key, ← decode value)

def readOptions (query : List Char) : Except Fault (List (String × String)) :=
  ((Text.cutAll '&' query).filter fun pair => !pair.isEmpty).mapM readOption

def endsSeeds (c : Char) : Bool := c == '/' || c == '?'

def checkSeed (seed : List Char) : Except Fault Unit :=
  match Url.read seed with
  | .ok _ => .ok ()
  | .error fault => .error (.host (String.ofList seed) fault)

/-- The parts of what follows the scheme. The first host takes credentials, path and query with it;
each other one is a URL on its own. -/
def ofRest (rest : List Char) : Except Fault ConnectionString := do
  let authority := rest.takeWhile fun c => !endsSeeds c
  let tail := rest.dropWhile fun c => !endsSeeds c
  let (credentials, seeds) := match Text.cutLast? '@' authority with
    | some (userinfo, seeds) => (userinfo ++ ['@'], seeds)
    | none => ([], authority)
  let hosts := Text.cutAll ',' seeds
  if hosts.any List.isEmpty then throw .emptyHost
  let url ← (Url.read (credentials ++ hosts.headD [] ++ tail)).mapError .url
  hosts.tail.forM checkSeed
  let user ← decodeNonempty url.user
  let password ← url.password.mapM decode
  let database ← decodeNonempty (url.path.dropWhile (· == '/'))
  let options ← readOptions url.query
  return { user, password, hosts := hosts.map String.ofList, database, options }

def ofChars (cs : List Char) : Except Fault ConnectionString :=
  match cutScheme? cs with
  | none => ofRest cs
  | some (found, rest) =>
      if String.ofList found = scheme then ofRest rest else .error (.otherScheme (String.ofList found))

def ofText (text : String) : Except Fault ConnectionString := ofChars text.toList

end DocQuery.ConnectionString
