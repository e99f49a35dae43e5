/-!
Access to files.

What a command needs of its surroundings: whether a path leads anywhere, and texts read and written
whole.
-/

set_option autoImplicit false

namespace LineScript

inductive AccessFault where
  | noSuchFile
  | notADirectory
  | isADirectory
  | nameTooLong
  /-- The path holds the character that ends paths. -/
  | endInsideName
  | invalidText
  | other (description : String)
deriving DecidableEq, Repr

def AccessFault.message : AccessFault → String
  | noSuchFile => "No such file or directory (os error 2)"
  | notADirectory => "Not a directory (os error 20)"
  | isADirectory => "Is a directory (os error 21)"
  | nameTooLong => "File name too long (os error 36)"
  | endInsideName => "file name contained an unexpected NUL byte"
  | invalidText => "stream did not contain valid UTF-8"
  | other description => description

class FileAccess (m : Type → Type) where
  pathExists : String → m Bool
  readText : String → m (Except AccessFault String)
  /-- Replaces the whole text of a file, which need not exist before. -/
  writeText : String → String → m (Except AccessFault Unit)

end LineScript
