import JavaMachine.CommandLine

/-!
The program: reads the class files that the main class leads to, runs it and reports how it ended.

A file is looked for below the class path and below the current directory. Which classes a program can
ask for is known from the files read so far, so files are read until they mention no new class.
-/

namespace JavaMachine

namespace CommandLine

/-- A directory of the system and the files read from it, by the paths that they were asked for. -/
abbrev Place := String × Directory

/-- Reads the file at a path below a directory, if it is there. -/
def readFile (path : Path) (place : Place) : IO Place := do
  let (root, directory) := place
  try
    let bytes ← IO.FS.readBinFile ("/".intercalate (root :: path))
    return (root, { directory with files := (path, bytes.toList) :: directory.files })
  catch _ => return place

/-- Reads the class file of a name. -/
def readClass (name : String) (places : List Place) : IO (List Place) :=
  match ClassPath.file? name with
  | some path => places.mapM (readFile path)
  | none => return places

/-- The classes that the class file of a name mentions, if it has been read and is well formed. -/
def mentionedBy (name : String) (places : List Place) : List String :=
  match (Machine.start (places.map (·.2))).classFile? name with
  | none => []
  | some bytes =>
    match ClassFile.decode bytes with
    | .ok file => mentioned file
    | .error _ => []

/-- Reads the class files of `names` and of all classes that those lead to, except of the ones in
`seen`. -/
partial def gather (seen : List String) (places : List Place) :
    (names : List String) → IO (List Directory)
  | [] => return places.map (·.2)
  | name :: names => do
    if seen.contains name then gather seen places names
    else
      let places ← readClass name places
      gather (name :: seen) places (mentionedBy name places ++ names)

/-- Steps that a program may take. -/
def fuel : Nat := 0x4000000000000000

/-- Runs a command line. -/
def run (environment : Option String) (arguments : List String) : IO UInt8 := do
  match Options.parse environment arguments with
  | .error stop => return stop.exitCode
  | .ok options =>
    let directories ← gather [] [(options.classPath, ⟨[], []⟩), (".", ⟨[], []⟩)] options.roots
    let outcome := options.run directories fuel
    if let some text := outcome.errorText then IO.eprintln text
    return outcome.exitCode

end CommandLine

end JavaMachine

def main (arguments : List String) : IO UInt32 := do
  let executable := toString (← IO.appPath)
  let environment ← IO.getEnv (JavaMachine.CommandLine.variableName executable)
  return (← JavaMachine.CommandLine.run environment arguments).toUInt32
