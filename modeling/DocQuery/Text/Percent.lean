import DocQuery.Text.Hex
import DocQuery.Text.Utf8

/-! Percent coding of text: every byte of a reserved character becomes `%XX`. Decoding undoes
encoding. -/
namespace DocQuery.Percent

def isUnreserved (c : Char) : Bool :=
  c.isAlphanum || c == '-' || c == '_' || c == '.' || c == '~'

def encodeByte (b : UInt8) : List Char := ['%', Hex.upper (b.toNat / 16), Hex.upper (b.toNat % 16)]

def encodeChar (c : Char) : List Char :=
  if isUnreserved c then [c] else (Utf8.encodeChar c).flatMap encodeByte

def encodeChars (cs : List Char) : List Char := cs.flatMap encodeChar

def encode (text : String) : String := String.ofList (encodeChars text.toList)

def escaped? (mark high low : Char) : Option UInt8 :=
  if mark = '%' then do
    let x ← Hex.value? high
    let y ← Hex.value? low
    return UInt8.ofNat (16 * x + y)
  else none

/-- The bytes that a percent-coded text stands for. A percent sign without two hexadecimal digits
stands for itself, and so does a plus sign. -/
def bytes : List Char → List UInt8
  | [] => []
  | [a] => Utf8.encodeChar a
  | [a, b] => Utf8.encodeChar a ++ Utf8.encodeChar b
  | a :: b :: c :: rest =>
      match escaped? a b c with
      | some byte => byte :: bytes rest
      | none => Utf8.encodeChar a ++ bytes (b :: c :: rest)

def decodeChars (cs : List Char) : Except Utf8.Fault (List Char) := Utf8.decode (bytes cs)

def decode (cs : List Char) : Except Utf8.Fault String := String.ofList <$> decodeChars cs

theorem bytes_cons_of_ne {c : Char} (h : c ≠ '%') (cs : List Char) :
    bytes (c :: cs) = Utf8.encodeChar c ++ bytes cs := by
  match cs with
  | [] => simp [bytes]
  | [b] => simp [bytes]
  | a :: b :: rest => simp [bytes, escaped?, h]

theorem bytes_encodeByte (b : UInt8) (cs : List Char) :
    bytes (encodeByte b ++ cs) = b :: bytes cs := by
  have hb := b.toNat_lt
  have hx : Hex.value? (Hex.upper (b.toNat / 16)) = some (b.toNat / 16) :=
    Hex.value?_upper (by omega)
  have hy : Hex.value? (Hex.upper (b.toNat % 16)) = some (b.toNat % 16) :=
    Hex.value?_upper (by omega)
  have he : escaped? '%' (Hex.upper (b.toNat / 16)) (Hex.upper (b.toNat % 16)) = some b := by
    rw [escaped?, if_pos rfl, hx, hy]
    exact congrArg some (by rw [Nat.div_add_mod, UInt8.ofNat_toNat])
  rw [encodeByte, List.cons_append, List.cons_append, List.cons_append, List.nil_append, bytes, he]

theorem bytes_encodeBytes (bs : List UInt8) (cs : List Char) :
    bytes (bs.flatMap encodeByte ++ cs) = bs ++ bytes cs := by
  induction bs with
  | nil => rfl
  | cons b bs ih => rw [List.flatMap_cons, List.append_assoc, bytes_encodeByte, ih, List.cons_append]

theorem bytes_encodeChar (c : Char) (cs : List Char) :
    bytes (encodeChar c ++ cs) = Utf8.encodeChar c ++ bytes cs := by
  unfold encodeChar
  split
  · next h =>
    have hc : c ≠ '%' := by
      rintro rfl
      exact absurd h (by decide)
    exact bytes_cons_of_ne hc cs
  · exact bytes_encodeBytes (Utf8.encodeChar c) cs

theorem bytes_encodeChars (cs : List Char) : bytes (encodeChars cs) = Utf8.encode cs := by
  induction cs with
  | nil => rfl
  | cons c cs ih =>
    rw [encodeChars, List.flatMap_cons, bytes_encodeChar, ← encodeChars, ih, Utf8.encode,
      Utf8.encode, List.flatMap_cons]

theorem decodeChars_encodeChars (cs : List Char) : decodeChars (encodeChars cs) = .ok cs := by
  rw [decodeChars, bytes_encodeChars, Utf8.decode_encode]

theorem decode_encode (text : String) : decode (encode text).toList = .ok text := by
  rw [decode, encode, String.toList_ofList, decodeChars_encodeChars]
  exact congrArg Except.ok String.ofList_toList

end DocQuery.Percent
