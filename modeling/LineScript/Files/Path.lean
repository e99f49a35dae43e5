/-!
Paths as text.

A path is its text; its segments are what stands between the slashes.
-/

set_option autoImplicit false

namespace LineScript

namespace Path

/-! ## Segments -/

/-- The stretches between the slashes of a text, the empty ones included: there is one more than there
are slashes. -/
def stretches : List Char → List (List Char)
  | [] => [[]]
  | character :: others =>
    if character = '/' then [] :: stretches others
    else
      match stretches others with
      | [] => [[character]]
      | first :: following => (character :: first) :: following

/-- What stands between the slashes of a path; empty segments come from slashes in a row and at
either end. -/
def segments (path : String) : List String :=
  (stretches path.toList).map String.ofList

def isAbsolute (path : String) : Bool :=
  path.toList.head? = some '/'

/-- A path with a slash at its end can only lead to a directory. -/
def endsInSlash (path : String) : Bool :=
  path.toList.getLast? = some '/'

/-- The segments on the way to the last one that is not empty. -/
def parents (path : String) : List String :=
  ((segments path).reverse.dropWhile (· = "")).tail.reverse

/-! ## File names -/

/-- The parts of a path that name a file: the segments before its name, in order, and the name.
Trailing slashes and dots name nothing, and neither do two dots. -/
def splitName? (path : String) : Option (List String × String) :=
  match (segments path).reverse.dropWhile fun segment => segment = "" || segment = "." with
  | [] => none
  | name :: before => if name = ".." then none else some (before.reverse, name)

/-- A file name up to its last dot, and what follows that dot.  A dot at the very start belongs to the
name. -/
def splitExtension (name : String) : String × Option String :=
  let reversed := name.toList.reverse
  match reversed.dropWhile (· != '.') with
  | [] => (name, none)
  | [_] => (name, none)
  | _ :: stem =>
    (String.ofList stem.reverse, some (String.ofList (reversed.takeWhile (· != '.')).reverse))

def extension? (path : String) : Option String :=
  (splitName? path).bind fun parts => (splitExtension parts.2).2

/-- The path whose file name has the given extension in place of its own.  What follows the name goes;
a path that names no file stays as it is. -/
def setExtension (extension path : String) : String :=
  match splitName? path with
  | none => path
  | some (before, name) =>
    "/".intercalate (before ++ [(splitExtension name).1 ++ "." ++ extension])

/-! ## Saved programs -/

def savedExtension : String := "bsl"

/-- Where the program compiled from a source is saved: beside it, with the extension of saved
programs in place of its own.  There is no such place for a source that has that extension itself.

The old extension is first taken off the end of the text by its length.  A name of two dots with an
extension behind them so becomes two dots, which name no file, and that is then the whole answer. -/
def compiled? (path : String) : Option String :=
  match extension? path with
  | none => some (setExtension savedExtension path)
  | some extension =>
    if extension = savedExtension then none
    else
      some (setExtension savedExtension
        (String.ofList (path.toList.take (path.length - extension.length))))

end Path

end LineScript
