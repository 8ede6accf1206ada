/-! Regular expressions that find a text, at a given place or by a pattern with wildcards. -/
namespace DocQuery.Pattern

/-- The characters that mean something in a regular expression. -/
def special : List Char :=
  ['\\', '.', '+', '*', '?', '(', ')', '|', '[', ']', '\x7b', '\x7d', '^', '$', '#', '&', '-', '~']

def isSpecial (c : Char) : Bool := special.contains c

def escapeChar (c : Char) : List Char := if isSpecial c then ['\\', c] else [c]

def escape (cs : List Char) : List Char := cs.flatMap escapeChar

def containing (text : List Char) : List Char := escape text

def startingWith (text : List Char) : List Char := '^' :: escape text

def endingWith (text : List Char) : List Char := escape text ++ ['$']

/-- Reads the rest of a `like` pattern: `%` is any run and `\%` a percent sign. What was read is in
`regex`, but for the text since the last wildcard, which is kept in `literal` and not yet escaped. -/
def likingFrom (regex literal : List Char) : List Char → List Char
  | [] => regex ++ escape literal ++ ['$']
  | '\\' :: '%' :: rest => likingFrom regex (literal ++ ['%']) rest
  | '%' :: rest => likingFrom (regex ++ escape literal ++ ['.', '*']) [] rest
  | c :: rest => likingFrom regex (literal ++ [c]) rest

def liking (pattern : List Char) : List Char := likingFrom ['^'] [] pattern

end DocQuery.Pattern
