import JavaMachine.Machine.Assignability
import JavaMachine.Text.Quoted

/-!
Native methods: methods whose code is outside of the class file.

A native gets its arguments in a table of slots, laid out like local variables, and gives at most one
value. Natives are found by the class, name and descriptor of the method they implement.
-/

namespace JavaMachine

/-- A call of a native method. -/
structure NativeCall where
  method : Method
  arguments : SlotTable

/-- The code of a native method. -/
abbrev Native := NativeCall → VM (Option Value)

/-- Native methods by their keys, at most one for each. -/
structure Natives where
  entries : List (String × Native)
  deriving Inhabited

namespace Natives

/-- The key of a native method. -/
def key (className name descriptor : String) : String := s!"{className}~{name}~{descriptor}"

/-- No natives at all. -/
def none : Natives := ⟨[]⟩

/-- Adds a native, in place of any other with the same key. -/
def register (natives : Natives) (className name descriptor : String) (native : Native) : Natives :=
  let key := key className name descriptor
  ⟨(key, native) :: natives.entries.filter (·.1 ≠ key)⟩

def size (natives : Natives) : Nat := natives.entries.length

/-- The native of a method. -/
def find (natives : Natives) (className name descriptor : String) : VM Native :=
  let key := key className name descriptor
  match natives.entries.lookup key with
  | some native => return native
  | Option.none =>
    VM.raise ExceptionName.unsatisfiedLink s!"{className}: no native method {key}"

/-- The keys in order, as diagnostics show them. -/
def describe (natives : Natives) : String :=
  let keys := (natives.entries.map (·.1)).mergeSort fun a b => decide (a ≤ b)
  "\x7b" ++ ", ".intercalate (keys.map Text.quote) ++ "\x7d"

end Natives

end JavaMachine
