import LineScript.Compilation
import LineScript.Files.Path
import LineScript.Saved.Store

/-!
The command line.

A command compiles the source at a path, runs a saved program, or does one after the other.
-/

set_option autoImplicit false

namespace LineScript

structure Command where
  /-- Compile the source at the path and save the program beside it. -/
  compile : Bool
  /-- Run the program just compiled, or the saved program at the path. -/
  run : Bool
  path : String
deriving DecidableEq, Repr

namespace Command

/-! ## Arguments -/

structure Arguments where
  compile : Bool
  run : Bool
  path : Option String
deriving DecidableEq, Repr

namespace Arguments

def empty : Arguments :=
  ⟨false, false, none⟩

/-- Each flag may be given once. -/
def addFlag? (letter : Char) (arguments : Arguments) : Option Arguments :=
  match letter with
  | 'c' => if arguments.compile then none else some { arguments with compile := true }
  | 'r' => if arguments.run then none else some { arguments with run := true }
  | _ => none

/-- One path is taken, and it must not be empty. -/
def addPath? (path : String) (arguments : Arguments) : Option Arguments :=
  if path.isEmpty || arguments.path.isSome then none
  else some { arguments with path := some path }

/-- One argument that may be an option.  Flags have a long name each, and their letters may share one
dash.  A single dash is a path. -/
def add? (argument : String) (arguments : Arguments) : Option Arguments :=
  if argument = "--compile" then arguments.addFlag? 'c'
  else if argument = "--run" then arguments.addFlag? 'r'
  else
    match argument.toList with
    | '-' :: letter :: letters =>
      (letter :: letters).foldlM (fun taken flag => taken.addFlag? flag) arguments
    | _ => arguments.addPath? argument

/-- All arguments.  Behind two dashes alone every argument is a path. -/
def addAll? (arguments : Arguments) : List String → Option Arguments
  | [] => some arguments
  | "--" :: paths => paths.foldlM (fun taken path => taken.addPath? path) arguments
  | argument :: others => (arguments.add? argument).bind fun taken => taken.addAll? others

end Arguments

def ofArguments? (arguments : List String) : Option Command :=
  match Arguments.empty.addAll? arguments with
  | some ⟨compile, run, some path⟩ => some ⟨compile, run, path⟩
  | _ => none

/-! ## Effects -/

/-- What a command leaves behind besides files. -/
structure Report where
  status : Nat
  output : String
  errors : String
deriving DecidableEq, Repr

namespace Report

def success : Report :=
  ⟨0, "", ""⟩

def failure (message : String) : Report :=
  ⟨1, "", "[Error]: " ++ message ++ "\n"⟩

def diagnosed (output : String) (diagnostics : Diagnostics) : Report :=
  ⟨1, output, diagnostics.toText ++ "\n"⟩

def usage : Report :=
  ⟨2, "", ""⟩

end Report

variable {m : Type → Type} [Monad m] [FileAccess m]

/-- Compiles a source and saves the program; the result is where it was saved. -/
def compileFile (path : String) : m (Except Report String) := do
  match Path.compiled? path with
  | none => return .error (.failure (path ++ " is already compiled; use --run"))
  | some target =>
    match ← FileAccess.readText path with
    | .error fault => return .error (.failure ("Failed to read " ++ path ++ ": " ++ fault.message))
    | .ok source =>
      match LineScript.compile source [] with
      | (none, diagnostics) => return .error (.diagnosed "" diagnostics)
      | (some program, _) =>
        match ← Saved.save target program with
        | .error error => return .error (.failure error.fullMessage)
        | .ok () => return .ok target

def runFile (passLimit : Nat) (path : String) : m Report := do
  match ← Saved.load path with
  | .error error => return .failure error.fullMessage
  | .ok program =>
    match program.execute passLimit .unbounded with
    | (.completed, sink) => return ⟨0, sink.text, ""⟩
    | (.failed error, sink) => return .diagnosed sink.text [error.toDiagnostic]
    | (.unfinished, sink) => return ⟨1, sink.text, ""⟩

/-- Does what a command asks for.  With neither flag it compiles and runs. -/
def perform (passLimit : Nat) (command : Command) : m Report := do
  if ← FileAccess.pathExists command.path then
    if command.compile || !command.run then
      match ← compileFile command.path with
      | .error report => return report
      | .ok target =>
        if command.run || !command.compile then runFile passLimit target else return .success
    else runFile passLimit command.path
  else return .failure ("There is no such file: " ++ command.path)

def performArguments (passLimit : Nat) (arguments : List String) : m Report :=
  match ofArguments? arguments with
  | some command => command.perform passLimit
  | none => return .usage

end Command

end LineScript
