import LineScript.Command

/-!
The program itself: arguments, files and streams of the real surroundings.
-/

set_option autoImplicit false

namespace LineScript

def AccessFault.ofSystem (number : UInt32) (details : String) : AccessFault :=
  match number.toNat with
  | 2 => .noSuchFile
  | 20 => .notADirectory
  | 21 => .isADirectory
  | 36 => .nameTooLong
  | unlisted => .other (details ++ " (os error " ++ Nat.repr unlisted ++ ")")

def AccessFault.ofError : IO.Error → AccessFault
  | .alreadyExists _ number details | .interrupted _ number details
  | .noFileOrDirectory _ number details | .invalidArgument _ number details
  | .permissionDenied _ number details | .resourceExhausted _ number details
  | .inappropriateType _ number details | .noSuchThing _ number details
  | .otherError number details | .resourceBusy number details | .resourceVanished number details
  | .unsupportedOperation number details | .hardwareFault number details
  | .unsatisfiedConstraints number details | .illegalOperation number details
  | .protocolError number details | .timeExpired number details => .ofSystem number details
  | .unexpectedEof => .other "unexpected end of file"
  | .userError message => .other message

instance : FileAccess IO where
  pathExists path := do
    try
      discard (IO.FS.realPath path)
      return true
    catch _ => return false
  readText path := do
    try
      match String.fromUTF8? (← IO.FS.readBinFile path) with
      | some text => return .ok text
      | none => return .error .invalidText
    catch error => return .error (.ofError error)
  writeText path text := do
    try
      IO.FS.writeBinFile path text.toUTF8
      return .ok ()
    catch error => return .error (.ofError error)

/-- More passes than any loop can make in practice. -/
def practicalPassLimit : Nat := 1 <<< 64

def usageText : String :=
  "Usage: bsl [--compile] [--run] PATH"

end LineScript

def main (arguments : List String) : IO UInt32 := do
  let report ← LineScript.Command.performArguments LineScript.practicalPassLimit arguments
  IO.print report.output
  (← IO.getStdout).flush
  IO.eprint report.errors
  if report.status = 2 then IO.eprintln LineScript.usageText
  return report.status.toUInt32
