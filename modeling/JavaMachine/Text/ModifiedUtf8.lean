import JavaMachine.Text.Units

/-!
Modified UTF-8, the encoding of strings in class files.

Each UTF-16 unit is encoded by itself in one to three bytes, so a supplementary character takes the
six bytes of its surrogate pair, and the unit 0 takes two bytes, so no encoding holds a zero byte.
Reading also accepts a unit written longer than necessary.
-/

namespace JavaMachine.Text.ModifiedUtf8

/-- The bytes of one unit: one for 1 to 7F, two for 0 and up to 7FF, else three. -/
def encodeUnit (u : UInt16) : List UInt8 :=
  if 1 ≤ u && u ≤ 0x7F then [u.toUInt8]
  else if u ≤ 0x7FF then [(u >>> 6).toUInt8 ||| 0xC0, (u &&& 0x3F).toUInt8 ||| 0x80]
  else [(u >>> 12).toUInt8 ||| 0xE0, ((u >>> 6) &&& 0x3F).toUInt8 ||| 0x80,
    (u &&& 0x3F).toUInt8 ||| 0x80]

/-- The bytes of a unit sequence. -/
def encode (us : Units) : List UInt8 := us.flatMap encodeUnit

/-- A byte of the form 10xxxxxx. -/
def isContinuation (b : UInt8) : Bool := b &&& 0xC0 == 0x80

/-- The unit written as 110xxxxx 10xxxxxx. -/
def unitOfTwo (a b : UInt8) : UInt16 :=
  ((a &&& 0x1F).toUInt16 <<< 6) ||| (b &&& 0x3F).toUInt16

/-- The unit written as 1110xxxx 10xxxxxx 10xxxxxx. -/
def unitOfThree (a b c : UInt8) : UInt16 :=
  ((a &&& 0x0F).toUInt16 <<< 12) ||| ((b &&& 0x3F).toUInt16 <<< 6) ||| (c &&& 0x3F).toUInt16

/-- Reads units to the end of the bytes; a zero byte, a stray continuation byte, a four-byte form
and an unfinished unit are refused. -/
def decode : List UInt8 → Option Units
  | [] => some []
  | a :: rest =>
    if a &&& 0x80 == 0 then
      if a == 0 then none else (decode rest).map (a.toUInt16 :: ·)
    else if a &&& 0xE0 == 0xC0 then
      match rest with
      | b :: rest => if isContinuation b then (decode rest).map (unitOfTwo a b :: ·) else none
      | [] => none
    else if a &&& 0xF0 == 0xE0 then
      match rest with
      | b :: c :: rest =>
        if isContinuation b && isContinuation c then (decode rest).map (unitOfThree a b c :: ·)
        else none
      | _ => none
    else none

end JavaMachine.Text.ModifiedUtf8
