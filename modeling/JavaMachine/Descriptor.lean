/-!
Field and method descriptors.

A field type is a primitive, a class by its binary name, or an array; a result is a field type or
void. `FieldType.read` takes one type off the front of a text and `FieldType.text` writes it back.
A method descriptor is a parenthesised list of field types followed by a result.
-/

namespace JavaMachine

/-- The type of a field, an argument or an array element. -/
inductive FieldType where
  | boolean | byte | char | short | int | long | float | double
  /-- A class or interface, by binary name. -/
  | object (name : String)
  | array (component : FieldType)
  deriving DecidableEq, Repr, Inhabited

namespace FieldType

/-- Slots that a value takes: two for the 64-bit types. -/
def size : FieldType → Nat
  | long | double => 2
  | _ => 1

/-- Whether values are references. -/
def isReference : FieldType → Bool
  | object _ | array _ => true
  | _ => false

/-- The characters of the descriptor. -/
def chars : FieldType → List Char
  | boolean => ['Z']
  | byte => ['B']
  | char => ['C']
  | short => ['S']
  | int => ['I']
  | long => ['J']
  | float => ['F']
  | double => ['D']
  | object name => 'L' :: name.toList ++ [';']
  | array component => '[' :: component.chars

/-- The descriptor. -/
def text (t : FieldType) : String := String.ofList t.chars

/-- Takes one type off the front. A class name ends at the first semicolon and is not empty. -/
def read : List Char → Option (FieldType × List Char)
  | 'Z' :: rest => some (boolean, rest)
  | 'B' :: rest => some (byte, rest)
  | 'C' :: rest => some (char, rest)
  | 'S' :: rest => some (short, rest)
  | 'I' :: rest => some (int, rest)
  | 'J' :: rest => some (long, rest)
  | 'F' :: rest => some (float, rest)
  | 'D' :: rest => some (double, rest)
  | 'L' :: rest =>
    match rest.takeWhile (· ≠ ';'), rest.dropWhile (· ≠ ';') with
    | c :: name, _ :: rest => some (object (String.ofList (c :: name)), rest)
    | _, _ => none
  | '[' :: rest => (read rest).map fun (t, rest) => (array t, rest)
  | _ => none

/-- What is left after a type is shorter than the text. -/
theorem length_of_read {s rest : List Char} {t : FieldType} (h : read s = some (t, rest)) :
    rest.length < s.length := by
  fun_induction read s generalizing t rest with
  | case9 tail c name d after _ hdrop =>
    have := (List.dropWhile_sublist (l := tail) (· ≠ ';')).length_le
    simp_all
    omega
  | case11 tail ih =>
    obtain ⟨⟨u, after⟩, hr, he⟩ := Option.map_eq_some_iff.1 h
    cases he
    have := ih hr
    simp; omega
  | _ => simp_all

/-- Reads types to the end of the text. -/
def readAll (s : List Char) : Option (List FieldType) :=
  match s with
  | [] => some []
  | c :: s =>
    match _h : read (c :: s) with
    | some (t, rest) => (readAll rest).map (t :: ·)
    | none => none
termination_by s.length
decreasing_by exact length_of_read _h

/-- A text that is one field type and nothing else. -/
def parse (s : String) : Option FieldType :=
  match read s.toList with
  | some (t, []) => some t
  | _ => none

end FieldType

/-- What a method returns. -/
inductive ReturnType where
  | void
  | value (type : FieldType)
  deriving DecidableEq, Repr, Inhabited

namespace ReturnType

/-- Slots that the result takes. -/
def size : ReturnType → Nat
  | void => 0
  | value t => t.size

def isReference : ReturnType → Bool
  | void => false
  | value t => t.isReference

def text : ReturnType → String
  | void => "V"
  | value t => t.text

/-- Takes one field type or void off the front. -/
def read : List Char → Option (ReturnType × List Char)
  | 'V' :: rest => some (void, rest)
  | s => (FieldType.read s).map fun (t, rest) => (value t, rest)

/-- Takes one type off the front of a text, with the number of UTF-8 bytes that it spans. -/
def decode (s : String) : Option (ReturnType × Nat) :=
  (read s.toList).map fun (t, rest) => (t, s.utf8ByteSize - (String.ofList rest).utf8ByteSize)

/-- A text that is one result and nothing else; a line feed never belongs to a result. -/
def parse (s : List Char) : Option ReturnType :=
  match read s with
  | some (t, []) => if '\n' ∈ s then none else some t
  | _ => none

end ReturnType

/-- The argument types and the result of a method. -/
structure MethodDescriptor where
  arguments : List FieldType
  result : ReturnType
  deriving DecidableEq, Repr, Inhabited

namespace MethodDescriptor

/-- Local variable slots that the arguments take, the receiver not counted. -/
def argumentSlots (d : MethodDescriptor) : Nat := d.arguments.foldr (fun t slots => t.size + slots) 0

/-- The descriptor. -/
def text (d : MethodDescriptor) : String :=
  String.ofList ('(' :: d.arguments.flatMap FieldType.chars ++ [')']) ++ d.result.text

/-- Reads a descriptor. The arguments end at the first closing parenthesis. -/
def parse (s : String) : Option MethodDescriptor :=
  match s.toList with
  | '(' :: s =>
    match s.dropWhile (· ≠ ')') with
    | _ :: result => do
      let result ← ReturnType.parse result
      let arguments ← FieldType.readAll (s.takeWhile (· ≠ ')'))
      some { arguments, result }
    | [] => none
  | _ => none

end MethodDescriptor

end JavaMachine
