/-! Hexadecimal digits. -/
namespace DocQuery.Hex

def value? (c : Char) : Option Nat :=
  if '0' ≤ c ∧ c ≤ '9' then some (c.toNat - '0'.toNat)
  else if 'a' ≤ c ∧ c ≤ 'f' then some (c.toNat - 'a'.toNat + 10)
  else if 'A' ≤ c ∧ c ≤ 'F' then some (c.toNat - 'A'.toNat + 10)
  else none

def lower (n : Nat) : Char := Nat.digitChar n

def upper (n : Nat) : Char := (Nat.digitChar n).toUpper

theorem value?_upper {n : Nat} (h : n < 16) : value? (upper n) = some n := by
  have all : ∀ m : Fin 16, value? (upper m.val) = some m.val := by decide
  exact all ⟨n, h⟩

end DocQuery.Hex
