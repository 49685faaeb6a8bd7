/-!
# Hexadecimal numbers

Lower-case hexadecimal digits, padded with zeros to a given number of places.
-/

namespace TapeLang.Text

/-- The digit of a number below sixteen. -/
def hexDigit (n : Nat) : Char :=
  if n < 10 then Char.ofNat ('0'.toNat + n) else Char.ofNat ('a'.toNat + (n - 10))

/-- The last `places` hexadecimal digits of a number, the most significant first. -/
def hex : Nat → Nat → List Char
  | 0, _ => []
  | places + 1, n => hex places (n / 16) ++ [hexDigit (n % 16)]

@[simp] theorem length_hex (places n : Nat) : (hex places n).length = places := by
  induction places generalizing n with
  | zero => rfl
  | succ k ih => simp [hex, ih]

end TapeLang.Text
