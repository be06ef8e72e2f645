/-!
Text as UTF-16 code units.

Class files keep their strings as code units whose surrogates need not pair up, while names are
compared and shown as characters. `units` goes from characters to units and loses nothing; `text`
goes back, pairing surrogates where it can and showing a lone one as U+FFFD.
-/

namespace JavaMachine.Text

/-- A sequence of UTF-16 code units, surrogates unchecked. -/
abbrev Units := List UInt16

/-- The code units of one character: a single unit below U+10000, a surrogate pair above. -/
def unitsOfChar (c : Char) : Units :=
  if c.val < 0x10000 then [c.val.toUInt16]
  else
    let offset := c.val - 0x10000
    [(offset >>> 10).toUInt16 + 0xD800, (offset &&& 0x3FF).toUInt16 + 0xDC00]

/-- The code units of a text. -/
def units (s : String) : Units := s.toList.flatMap unitsOfChar

/-- The first half of a surrogate pair. -/
def isHighSurrogate (u : UInt16) : Bool := 0xD800 ≤ u && u < 0xDC00

/-- The second half of a surrogate pair. -/
def isLowSurrogate (u : UInt16) : Bool := 0xDC00 ≤ u && u < 0xE000

/-- The character that stands for a unit that is no character by itself. -/
def replacement : Char := '\uFFFD'

/-- The character of a single unit; a lone surrogate is shown as the replacement character. -/
def charOfUnit (u : UInt16) : Char :=
  if isHighSurrogate u || isLowSurrogate u then replacement else Char.ofNat u.toNat

/-- The character that a surrogate pair encodes. -/
def charOfPair (high low : UInt16) : Char :=
  Char.ofNat (0x10000 + (high.toNat - 0xD800) * 0x400 + (low.toNat - 0xDC00))

/-- The characters of a unit sequence, read from the left. -/
def chars : Units → List Char
  | [] => []
  | [u] => [charOfUnit u]
  | u :: v :: rest =>
    if isHighSurrogate u && isLowSurrogate v then charOfPair u v :: chars rest
    else charOfUnit u :: chars (v :: rest)

/-- The text of a unit sequence. -/
def text (us : Units) : String := String.ofList (chars us)

end JavaMachine.Text
