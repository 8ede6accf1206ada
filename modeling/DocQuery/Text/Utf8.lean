/-! UTF-8: the bytes of a character, and decoding with the place of the first error. Decoding undoes
encoding. -/
namespace DocQuery.Utf8

/-- A sequence that no text contains, with its length and the index of its first byte, or one that the
end cuts off. -/
inductive Fault where
  | invalid (length index : Nat)
  | incomplete (index : Nat)
  deriving DecidableEq

def Fault.message : Fault → String
  | .invalid length index =>
      "invalid utf-8 sequence of " ++ toString length ++ " bytes from index " ++ toString index
  | .incomplete index => "incomplete utf-8 byte sequence from index " ++ toString index

def encodeChar (c : Char) : List UInt8 :=
  let n := c.toNat
  if n < 0x80 then [UInt8.ofNat n]
  else if n < 0x800 then [UInt8.ofNat (0xC0 + n / 0x40), UInt8.ofNat (0x80 + n % 0x40)]
  else if n < 0x10000 then
    [UInt8.ofNat (0xE0 + n / 0x1000), UInt8.ofNat (0x80 + n / 0x40 % 0x40),
      UInt8.ofNat (0x80 + n % 0x40)]
  else
    [UInt8.ofNat (0xF0 + n / 0x40000), UInt8.ofNat (0x80 + n / 0x1000 % 0x40),
      UInt8.ofNat (0x80 + n / 0x40 % 0x40), UInt8.ofNat (0x80 + n % 0x40)]

def encode (cs : List Char) : List UInt8 := cs.flatMap encodeChar

/-- A character of which `length` bytes are read and make up `value`. The next byte lies between `low`
and `high`, and `missing` more follow it. -/
structure Pending where
  length : Nat
  missing : Nat
  low : Nat
  high : Nat
  value : Nat

/-- The character that a first byte begins. The bounds of the second byte exclude overlong forms,
surrogates and numbers above U+10FFFF. -/
def lead? (n : Nat) : Option Pending :=
  if n < 0xC2 then none
  else if n < 0xE0 then some ⟨1, 0, 0x80, 0xBF, n - 0xC0⟩
  else if n < 0xF0 then
    some ⟨1, 1, if n = 0xE0 then 0xA0 else 0x80, if n = 0xED then 0x9F else 0xBF, n - 0xE0⟩
  else if n ≤ 0xF4 then
    some ⟨1, 2, if n = 0xF0 then 0x90 else 0x80, if n = 0xF4 then 0x8F else 0xBF, n - 0xF0⟩
  else none

def Pending.accepts (p : Pending) (b : UInt8) : Bool :=
  decide (p.low ≤ b.toNat) && decide (b.toNat ≤ p.high)

def Pending.join (p : Pending) (b : UInt8) : Nat := p.value * 0x40 + (b.toNat - 0x80)

/-- Decodes bytes, where `index` is that of the first byte of the pending or the next character. -/
def decodeFrom (index : Nat) : Option Pending → List UInt8 → Except Fault (List Char)
  | none, [] => .ok []
  | some _, [] => .error (.incomplete index)
  | none, b :: bs =>
      if b.toNat < 0x80 then (Char.ofNat b.toNat :: ·) <$> decodeFrom (index + 1) none bs
      else match lead? b.toNat with
        | some p => decodeFrom index (some p) bs
        | none => .error (.invalid 1 index)
  | some p, b :: bs =>
      if p.accepts b then
        match p.missing with
        | 0 => (Char.ofNat (p.join b) :: ·) <$> decodeFrom (index + p.length + 1) none bs
        | m + 1 => decodeFrom index (some ⟨p.length + 1, m, 0x80, 0xBF, p.join b⟩) bs
      else .error (.invalid p.length index)

def decode (bytes : List UInt8) : Except Fault (List Char) := decodeFrom 0 none bytes

theorem toNat_ofNat_of_lt {n : Nat} (h : n < 256) : (UInt8.ofNat n).toNat = n := by
  rw [UInt8.toNat_ofNat']
  exact Nat.mod_eq_of_lt h

theorem char_range (c : Char) : c.toNat < 0xD800 ∨ 0xDFFF < c.toNat ∧ c.toNat < 0x110000 := by
  have h := c.valid
  simp only [UInt32.isValidChar, Nat.isValidChar] at h
  exact h

/-- A byte that completes a character. -/
theorem decodeFrom_last {index n length low high value : Nat} {c : Char} (hn : n < 256)
    (hl : low ≤ n) (hh : n ≤ high) (hc : value * 0x40 + (n - 0x80) = c.toNat) (bs : List UInt8) :
    decodeFrom index (some ⟨length, 0, low, high, value⟩) (UInt8.ofNat n :: bs) =
      (c :: ·) <$> decodeFrom (index + length + 1) none bs := by
  have ha : Pending.accepts ⟨length, 0, low, high, value⟩ (UInt8.ofNat n) = true := by
    simp only [Pending.accepts, toNat_ofNat_of_lt hn, hl, hh, decide_true, Bool.and_self]
  have hj : Pending.join ⟨length, 0, low, high, value⟩ (UInt8.ofNat n) = c.toNat := by
    unfold Pending.join
    rw [toNat_ofNat_of_lt hn]
    exact hc
  rw [decodeFrom, if_pos ha, hj, Char.ofNat_toNat]

/-- A byte that continues a character. -/
theorem decodeFrom_next {index n length missing low high value : Nat} (hn : n < 256)
    (hl : low ≤ n) (hh : n ≤ high) (bs : List UInt8) :
    decodeFrom index (some ⟨length, missing + 1, low, high, value⟩) (UInt8.ofNat n :: bs) =
      decodeFrom index (some ⟨length + 1, missing, 0x80, 0xBF, value * 0x40 + (n - 0x80)⟩) bs := by
  have ha : Pending.accepts ⟨length, missing + 1, low, high, value⟩ (UInt8.ofNat n) = true := by
    simp only [Pending.accepts, toNat_ofNat_of_lt hn, hl, hh, decide_true, Bool.and_self]
  have hj : Pending.join ⟨length, missing + 1, low, high, value⟩ (UInt8.ofNat n) =
      value * 0x40 + (n - 0x80) := by
    unfold Pending.join
    rw [toNat_ofNat_of_lt hn]
  rw [decodeFrom, if_pos ha, hj]

/-- A byte that begins a character. -/
theorem decodeFrom_lead {index n : Nat} {p : Pending} (hn : n < 256) (h : 0x80 ≤ n)
    (hp : lead? n = some p) (bs : List UInt8) :
    decodeFrom index none (UInt8.ofNat n :: bs) = decodeFrom index (some p) bs := by
  simp [decodeFrom, toNat_ofNat_of_lt hn, hp, Nat.not_lt.2 h]

theorem decodeFrom_encodeChar (index : Nat) (c : Char) (bs : List UInt8) :
    decodeFrom index none (encodeChar c ++ bs) =
      (c :: ·) <$> decodeFrom (index + (encodeChar c).length) none bs := by
  have hv := char_range c
  unfold encodeChar
  by_cases h1 : c.toNat < 0x80
  · simp [h1, decodeFrom, toNat_ofNat_of_lt (show c.toNat < 256 by omega)]
  by_cases h2 : c.toNat < 0x800
  · simp only [h1, h2, if_false, if_true, List.cons_append, List.nil_append, List.length_cons,
      List.length_nil]
    rw [decodeFrom_lead (by omega) (by omega)
      (show lead? (0xC0 + c.toNat / 0x40) = some ⟨1, 0, 0x80, 0xBF, c.toNat / 0x40⟩ by
        rw [lead?, if_neg (by omega), if_pos (by omega), Nat.add_sub_cancel_left])]
    exact decodeFrom_last (by omega) (by omega) (by omega) (by omega) bs
  by_cases h3 : c.toNat < 0x10000
  · simp only [h1, h2, h3, if_false, if_true, List.cons_append, List.nil_append, List.length_cons,
      List.length_nil]
    rw [decodeFrom_lead (by omega) (by omega)
      (show lead? (0xE0 + c.toNat / 0x1000) =
          some ⟨1, 1, if 0xE0 + c.toNat / 0x1000 = 0xE0 then 0xA0 else 0x80,
            if 0xE0 + c.toNat / 0x1000 = 0xED then 0x9F else 0xBF, c.toNat / 0x1000⟩ by
        rw [lead?, if_neg (by omega), if_neg (by omega), if_pos (by omega),
          Nat.add_sub_cancel_left]),
      decodeFrom_next (by omega) (by split <;> omega) (by split <;> omega)]
    exact decodeFrom_last (by omega) (by omega) (by omega) (by omega) bs
  · simp only [h1, h2, h3, if_false, List.cons_append, List.nil_append, List.length_cons,
      List.length_nil]
    rw [decodeFrom_lead (by omega) (by omega)
      (show lead? (0xF0 + c.toNat / 0x40000) =
          some ⟨1, 2, if 0xF0 + c.toNat / 0x40000 = 0xF0 then 0x90 else 0x80,
            if 0xF0 + c.toNat / 0x40000 = 0xF4 then 0x8F else 0xBF, c.toNat / 0x40000⟩ by
        rw [lead?, if_neg (by omega), if_neg (by omega), if_neg (by omega), if_pos (by omega),
          Nat.add_sub_cancel_left]),
      decodeFrom_next (by omega) (by split <;> omega) (by split <;> omega),
      decodeFrom_next (by omega) (by omega) (by omega)]
    exact decodeFrom_last (by omega) (by omega) (by omega) (by omega) bs

theorem decodeFrom_encode (index : Nat) (cs : List Char) :
    decodeFrom index none (encode cs) = .ok cs := by
  induction cs generalizing index with
  | nil => rfl
  | cons c cs ih =>
    rw [encode, List.flatMap_cons, decodeFrom_encodeChar, ← encode, ih]
    rfl

theorem decode_encode (cs : List Char) : decode (encode cs) = .ok cs := decodeFrom_encode 0 cs

end DocQuery.Utf8
