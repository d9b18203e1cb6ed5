import ChatText.Text.Basic

/-!
# Decimal numerals

Numbers are written with ASCII digits and no leading zero; reading takes any run of ASCII
digits. `decimalValue_decimal` says that reading undoes writing.
-/

namespace ChatText

/-- The decimal digits of a number. -/
def decimal (n : Nat) : Text := Nat.toDigits 10 n

/-- The number that a run of ASCII digits denotes. -/
def decimalValue (digits : Text) : Nat := Nat.ofDigitChars 10 digits 0

theorem decimalValue_decimal (n : Nat) : decimalValue (decimal n) = n :=
  Nat.ofDigitChars_toDigits (by decide) (by decide)

/-- The number that a run of ASCII digits denotes, if it is below `2 ^ 32`. -/
def decimalValue32? (digits : Text) : Option UInt32 :=
  if decimalValue digits < UInt32.size then some (UInt32.ofNat (decimalValue digits)) else none

/-- The digits of a 32-bit number read back as that number. -/
theorem decimalValue32?_decimal (n : UInt32) : decimalValue32? (decimal n.toNat) = some n := by
  rw [decimalValue32?, decimalValue_decimal, if_pos n.toNat_lt, UInt32.ofNat_toNat]

end ChatText
