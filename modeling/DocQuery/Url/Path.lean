import DocQuery.Text.Cut

/-! Hierarchical paths and the removal of their dot segments. -/
namespace DocQuery.Url

/-- How many dots a segment consists of, each written plainly or as `%2e`. -/
def dots? : List Char → Option Nat
  | [] => some 0
  | '.' :: rest => (dots? rest).map (· + 1)
  | '%' :: '2' :: e :: rest => if e = 'e' ∨ e = 'E' then (dots? rest).map (· + 1) else none
  | _ => none

/-- A letter before a colon or a bar, alone or up to a backslash. Going up does not leave it. -/
def isDrive : List Char → Bool
  | letter :: mark :: rest =>
      letter.isAlpha && (mark == ':' || mark == '|') && (rest.isEmpty || rest.head? == some '\\')
  | _ => false

/-- The segments left by those read so far, last first, after going up one level. -/
def goUp : List (List Char) → List (List Char)
  | [] => []
  | segment :: above => if isDrive segment then segment :: above else above

/-- Reads segments below those in `above`, which are kept last first. A dot segment at the end leaves
an empty one. -/
def resolveSegments (above : List (List Char)) : List (List Char) → List (List Char)
  | [] => above.reverse
  | [segment] =>
      match dots? segment with
      | some 1 => ([] :: above).reverse
      | some 2 => ([] :: goUp above).reverse
      | _ => (segment :: above).reverse
  | segment :: rest =>
      match dots? segment with
      | some 1 => resolveSegments above rest
      | some 2 => resolveSegments (goUp above) rest
      | _ => resolveSegments (segment :: above) rest

def joinSegments (segments : List (List Char)) : List Char :=
  segments.flatMap fun segment => '/' :: segment

/-- The path without dot segments. A path that does not start with a slash gets one. -/
def resolvePath : List Char → List Char
  | [] => []
  | '/' :: rest => joinSegments (resolveSegments [] (Text.cutAll '/' rest))
  | path => joinSegments (resolveSegments [] (Text.cutAll '/' path))

end DocQuery.Url
