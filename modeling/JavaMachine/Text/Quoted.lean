import JavaMachine.Text.Hidden

/-!
Text between double quotes, with every character that does not show as itself escaped.

Tab, line feed, carriage return, NUL, the quote and the backslash have escapes of two characters; any
other character that does not show is written by its code point in lower-case base sixteen.
-/

namespace JavaMachine.Text

/-- The characters written for one character between quotes. -/
def quoteChar (c : Char) : List Char :=
  if c = '\x00' then ['\\', '0']
  else if c = '\t' then ['\\', 't']
  else if c = '\n' then ['\\', 'n']
  else if c = '\r' then ['\\', 'r']
  else if c = '\\' || c = '"' then ['\\', c]
  else if isShown c then [c]
  else ['\\', 'u', '\x7b'] ++ Nat.toDigits 16 c.toNat ++ ['\x7d']

/-- A text between double quotes. -/
def quote (s : String) : String :=
  String.ofList ('"' :: s.toList.flatMap quoteChar ++ ['"'])

end JavaMachine.Text
