/-!
Numbers as bytes, most significant byte first.
-/

namespace JavaMachine.BigEndian

/-- The number that some bytes spell. -/
def toNat (bytes : List UInt8) : Nat := bytes.foldl (fun n b => n * 256 + b.toNat) 0

/-- The `width` lowest bytes of `n`, most significant first. -/
def ofNat : Nat → Nat → List UInt8
  | 0, _ => []
  | width + 1, n => ofNat width (n / 256) ++ [n.toUInt8]

end JavaMachine.BigEndian
