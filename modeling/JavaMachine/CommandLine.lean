import JavaMachine.Interpreter

/-!
The command line: a main class with its arguments, and options before, between and after them.

An option with a value takes the rest of its argument or the whole next one, which then may not look
like an option. An option is given at most once. A class path that is not given is taken from a
variable of the environment, if that is set, and else is the current directory.
-/

namespace JavaMachine

namespace CommandLine

/-- What is to be run, and how. -/
structure Options where
  classPath : String
  maxDepth : Nat
  mainClass : String
  arguments : List String
  deriving DecidableEq, Repr

/-- Why nothing is run. -/
inductive Stop where
  /-- Help or the version was asked for. -/
  | information
  | usageError
  deriving DecidableEq, Repr

/-- What has been given so far. -/
structure Given where
  classPath : Option String := none
  maxDepth : Option Nat := none
  verbose : Bool := false
  trace : Bool := false
  /-- The main class and its arguments. -/
  positional : List String := []
  deriving DecidableEq, Repr

/-! ### Single options -/

/-- The largest number of frames that can be asked for. -/
def maxDepthLimit : Nat := 0xFFFFFFFFFFFFFFFF

/-- A number of frames: digits, after a plus sign or not. -/
def depth? (text : String) : Option Nat :=
  let digits := match text.toList with
    | '+' :: digits => digits
    | digits => digits
  if digits ≠ [] && digits.all Char.isDigit then
    let n := digits.foldl (fun n c => n * 10 + (c.toNat - '0'.toNat)) 0
    if n ≤ maxDepthLimit then some n else none
  else none

namespace Given

/-- Takes a class path, which is not empty. -/
def setClassPath (g : Given) (value : String) : Except Stop Given :=
  if g.classPath.isSome || value = "" then .error .usageError
  else .ok { g with classPath := some value }

def setMaxDepth (g : Given) (value : String) : Except Stop Given :=
  match g.maxDepth, depth? value with
  | none, some n => .ok { g with maxDepth := some n }
  | _, _ => .error .usageError

def setVerbose (g : Given) : Except Stop Given :=
  if g.verbose then .error .usageError else .ok { g with verbose := true }

def setTrace (g : Given) : Except Stop Given :=
  if g.trace then .error .usageError else .ok { g with trace := true }

end Given

/-- An option whose value is still to come. -/
abbrev Pending := Option (Given → String → Except Stop Given)

/-- Short options, several of which may stand together. -/
def readShort (g : Given) : List Char → Except Stop (Given × Pending)
  | [] => .ok (g, none)
  | 'c' :: [] => .ok (g, some Given.setClassPath)
  | 'c' :: '=' :: value => return (← g.setClassPath (String.ofList value), none)
  | 'c' :: value => return (← g.setClassPath (String.ofList value), none)
  | 'v' :: options => do readShort (← g.setVerbose) options
  | 'h' :: _ | 'V' :: _ => .error .information
  | _ :: _ => .error .usageError

/-- A long option, with its value if that follows an equals sign. -/
def readLong (g : Given) (name : String) (value : Option String) : Except Stop (Given × Pending) :=
  match name, value with
  | "classpath", some value => return (← g.setClassPath value, none)
  | "classpath", none => .ok (g, some Given.setClassPath)
  | "max-stack-depth", some value => return (← g.setMaxDepth value, none)
  | "max-stack-depth", none => .ok (g, some Given.setMaxDepth)
  | "verbose", none => return (← g.setVerbose, none)
  | "trace", none => return (← g.setTrace, none)
  | "help", none | "version", none => .error .information
  | _, _ => .error .usageError

/-! ### All arguments -/

/-- Whether an argument looks like an option. A single dash does not. -/
def isOption (argument : String) : Bool :=
  match argument.toList with
  | '-' :: _ :: _ => true
  | _ => false

/-- Reads one argument. -/
def readArgument (g : Given) (argument : String) : Except Stop (Given × Pending) :=
  match argument.toList with
  | '-' :: '-' :: option =>
    let name := String.ofList (option.takeWhile (· ≠ '='))
    match option.dropWhile (· ≠ '=') with
    | _ :: value => readLong g name (some (String.ofList value))
    | [] => readLong g name none
  | '-' :: c :: options => readShort g (c :: options)
  | _ => .ok ({ g with positional := g.positional ++ [argument] }, none)

/-- Reads the arguments in their order. After two dashes nothing is an option. -/
def readAll (g : Given) : (pending : Pending) → List String → Except Stop Given
  | none, [] => .ok g
  | some _, [] => .error .usageError
  | some set, value :: rest => do
    if isOption value then .error .usageError
    else readAll (← set g value) none rest
  | none, "--" :: rest => .ok { g with positional := g.positional ++ rest }
  | none, argument :: rest => do
    let (g, pending) ← readArgument g argument
    readAll g pending rest

/-- The options of a command line; `environment` is the class path that the environment gives. -/
def Options.parse (environment : Option String) (arguments : List String) : Except Stop Options := do
  let g ← readAll {} none arguments
  let classPath ← match g.classPath, environment with
    | some path, _ => .ok path
    | none, some "" => .error .usageError
    | none, some path => .ok path
    | none, none => .ok "."
  match g.positional with
  | [] => .error .usageError
  | mainClass :: arguments =>
    .ok { classPath, maxDepth := g.maxDepth.getD Thread.defaultDepth, mainClass, arguments }

/-! ### Class files -/

/-- The class in the name of an array class of any dimension; any other name is that of a class. -/
def innermost? (name : String) : Option String :=
  match name.toList.dropWhile (· = '[') with
  | 'L' :: rest => if ArrayName.isArray name then some (String.ofList rest.dropLast) else some name
  | _ => if ArrayName.isArray name then none else some name

/-- The classes that the code of a class file can ask for: those its pool refers to. -/
def mentioned (file : ClassFile) : List String :=
  file.pool.toList.filterMap fun
    | .classRef index => (file.pool.text? index).bind innermost?
    | _ => none

/-- The classes that a program starts from: its main class, and those that the machine asks for. -/
def Options.roots (o : Options) : List String := Exec.binaryName o.mainClass :: Library.names

/-- The variable of the environment that holds a class path, by the file of the program. -/
def variableName (executable : String) : String :=
  let file := (Path.ofText executable).getLastD ""
  (String.ofList (ClassPath.stem file.toList)).toUpper ++ "_CLASSPATH"

/-! ### Running -/

/-- How a command ends. -/
structure Outcome where
  exitCode : UInt8
  /-- What is written to the error output; the wording of usage errors is left out. -/
  errorText : Option String
  deriving DecidableEq, Repr

/-- The first line of a text. A line feed ends it, also together with a carriage return before it. -/
def firstLine (text : String) : String :=
  let line := text.toList.takeWhile (· ≠ '\n')
  String.ofList (if line.getLast? = some '\r' then line.dropLast else line)

/-- The first line that is written to the error output, where each text ends with a line feed. -/
def Outcome.errorLine? (o : Outcome) : Option String := o.errorText.map firstLine

/-- Runs the main class with classes from the given directories. -/
def Options.run (o : Options) (directories : List Directory) (fuel : Nat) : Outcome :=
  let program := Exec.runMain .standard fuel o.mainClass o.arguments
  match (program.run ⟨.start directories, .start o.maxDepth⟩).run with
  | (.ok (), _) => ⟨0, none⟩
  | (.error (.fault fault), process) =>
    ⟨1, some s!"Error running {o.mainClass}: {process.machine.message fault}"⟩
  | (.error .outOfRange, _) | (.error .outOfFuel, _) | (.error .endless, _) => ⟨101, none⟩

/-- The exit code of a command line that runs nothing. -/
def Stop.exitCode : Stop → UInt8
  | information => 0
  | usageError => 2

end CommandLine

end JavaMachine
