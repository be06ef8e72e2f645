/-!
Numbers in base sixteen, as diagnostics print them: upper-case digits, padded with zeros on the left.
-/

namespace JavaMachine.Text

/-- The `width` lowest base-sixteen digits of `n`, most significant first. -/
def hexDigits : Nat → Nat → List Char
  | 0, _ => []
  | width + 1, n => hexDigits width (n / 16) ++ [Nat.digitChar (n % 16) |>.toUpper]

/-- The `width` lowest base-sixteen digits of `n` as a text. -/
def hex (width n : Nat) : String := String.ofList (hexDigits width n)

end JavaMachine.Text
